import ThreatHunting.Lib.Recording
import ThreatHunting.Services.Documents

/-!
# ThreatHunting.Services.ReportFiles

`ReportService`, whose finalized documents are files. A finalization writes its document under a
path that depends on the hunt only, then finalizes the row if its draft still has the version, and
removes the file if that is refused or fails. The three are separate steps, and the file is not the
row's until the row says so.
-/

namespace ThreatHunting

open Store

namespace ReportService

/-! ### The report and its files -/

/-- The bytes of a file. -/
abbrev Bytes := List UInt8

/-- The states of a report. -/
inductive ReportState
  | report_draft | finalized
  deriving DecidableEq

/-- A row of `reports`, as the service reads it. -/
structure ReportRow where
  report_id : Uuid
  owner_id : String
  state : ReportState
  version : Nat
  agent_draft : Option Document
  draft_content : Option Document
  final_content : Option Document := none
  pdf_path : Option String := none
  pdf_sha256 : Option String := none
  finalized_by_user_id : Option String := none
  finalized_at_utc : Option Instant := none
  updated_at_utc : Instant

/-- The report of the hunt, and the artifact directory. -/
structure ReportStore where
  report : Option ReportRow
  files : String → Option Bytes

namespace ReportStore

variable (s : ReportStore)

/-- The report, for its owner. -/
def owned (owner_id : String) : Option ReportRow := s.report.filter (·.owner_id = owner_id)

/-- The draft of this version, for its owner. -/
def draft (owner_id : String) (version : Nat) : Option ReportRow :=
  (s.owned owner_id).filter fun row => row.state = .report_draft && row.version = version

/-- `update_draft`. -/
def update_draft (owner_id : String) (expected_version : Nat) (content : Document) (now : Instant) :
    Option ReportStore :=
  (s.draft owner_id expected_version).map fun row =>
    { s with report := some { row with
        draft_content := some content, version := row.version + 1, updated_at_utc := now } }

/-- `finalize`. -/
def finalize (owner_id : String) (expected_version : Nat) (content : Document) (pdf_path pdf_sha256 : String)
    (finalized_at_utc : Instant) : Option ReportStore :=
  (s.draft owner_id expected_version).map fun row =>
    { s with report := some { row with
        state := .finalized, final_content := some content, draft_content := some content
        pdf_path := some pdf_path, pdf_sha256 := some pdf_sha256, finalized_by_user_id := some owner_id
        finalized_at_utc := some finalized_at_utc, updated_at_utc := finalized_at_utc
        version := row.version + 1 } }

/-- The file is replaced, or removed if there is no content. -/
def setFile (path : String) (content : Option Bytes) : ReportStore :=
  { s with files := Function.update s.files path content }

end ReportStore

/-- The transactions and the file operations of the service. -/
inductive Access
  | update_draft (owner_id : String) (expected_version : Nat) (content : Document) (now : Instant)
  | finalize (owner_id : String) (expected_version : Nat) (content : Document) (pdf_path pdf_sha256 : String)
      (finalized_at_utc : Instant)
  | replace (path : String) (content : Bytes)
  | unlink (path : String)

/-- The effect of an access; `none` is a row count other than one. -/
def Access.effect : Access → ReportStore → Option ReportStore
  | .update_draft owner_id version content now, s => s.update_draft owner_id version content now
  | .finalize owner_id version content path sha at_, s => s.finalize owner_id version content path sha at_
  | .replace path content, s => some (s.setFile path (some content))
  | .unlink path, s => some (s.setFile path none)

/-- Whether `repository.finalize` raises, before or after its transaction is committed. -/
inductive RepositoryFault
  | none | beforeCommit | afterCommit
  deriving DecidableEq

/-- What the service asks: the renderer, the clock, and which operations fail. -/
inductive Ask
  | render (document : Document)
  | write_fails
  | now
  | repository_fault
  | unlink_fails

/-- The type of each answer. A renderer may fail. -/
def Ask.Answer : Ask → Type
  | .render _ => Option Bytes
  | .write_fails | .unlink_fails => Bool
  | .now => Instant
  | .repository_fault => RepositoryFault

/-- The service's questions and accesses. -/
def reportSignature : Signature ReportStore where
  Question := Ask
  Answer := Ask.Answer
  Transaction := Access
  effect := Access.effect

abbrev Event := Store.Event reportSignature
abbrev History := Store.History reportSignature

/-- The errors of the service. -/
inductive ReportFault
  | not_found (message : String)
  | locked (message : String)
  | conflict (message : String)
  | validation (message : String)
  | render_error (message : String)
  | repository
  deriving DecidableEq

/-- A procedure of the service. -/
abbrev Op (α : Type) := Proc reportSignature Unit ReportFault α

/-- A running client. -/
abbrev Client := Program reportSignature (Except ReportFault Unit × Unit)

/-- Pure code the service uses. -/
structure Helpers where
  /-- Is the document not empty? -/
  truthy : Document → Bool
  /-- `_validated`. -/
  validated : Document → Except ReportFault Document
  /-- `render_report_html`. -/
  render_report_html : Document → Document
  /-- `reports/` and `_safe_filename` of the hunt. -/
  pdf_path : String
  /-- SHA-256 of a file. -/
  sha256 : Bytes → String

/-! ### The operations -/

section Operations

variable (helpers : Helpers)

/-- Raise `e` if the condition holds. -/
def raiseIf (c : Prop) [Decidable c] (e : ReportFault) : Op Unit := if c then Proc.throw e else pure ()

/-- `_record`. -/
def record (owner_id : String) : Op ReportRow := do
  let s ← Proc.read
  match s.owned owner_id with
  | some row => pure row
  | none => Proc.throw (.not_found "report not found")

/-- The content of a draft: `draft_content or agent_draft or {}`. -/
def ReportRow.content (row : ReportRow) : Document :=
  ((row.draft_content.filter helpers.truthy) <|> (row.agent_draft.filter helpers.truthy)).getD "{}"

/-- `write_pdf`: a failed write leaves the file as it was. -/
def write_pdf (content : Bytes) : Op Unit := do
  let fails ← Proc.ask (S := reportSignature) .write_fails
  match (fails : Bool) with
  | true => Proc.throw (.render_error "could not persist finalized PDF")
  | false =>
      let _ ← Proc.commit (S := reportSignature) (.replace helpers.pdf_path content)
      pure ()

/-- The clean-up of a finalization, whose own failure is ignored. -/
def clean_up : Op Unit := do
  let fails ← Proc.ask (S := reportSignature) .unlink_fails
  match (fails : Bool) with
  | true => pure ()
  | false =>
      let _ ← Proc.commit (S := reportSignature) (.unlink helpers.pdf_path)
      pure ()

/-- `save_draft`, up to the preview it returns. -/
def save_draft (owner_id : String) (expected_version : Nat) (content : Document) : Op Unit := do
  let row ← record owner_id
  raiseIf (row.state ≠ .report_draft) (.locked "finalized reports are immutable")
  raiseIf (row.version ≠ expected_version) (.conflict "report version is stale; reload before saving")
  let normalized ← Proc.ofExcept (helpers.validated content)
  let now ← Proc.ask (S := reportSignature) .now
  let (_, saved) ← Proc.commit (S := reportSignature) (.update_draft owner_id expected_version normalized now)
  raiseIf (saved = false) (.conflict "report changed while it was being saved")

/-- The end of `finalize`, once the file is written. -/
def finish (owner_id : String) (expected_version : Nat) (content : Document) (pdf : Bytes) : Op Unit := do
  let finalized_at ← Proc.ask (S := reportSignature) .now
  let access := Access.finalize owner_id expected_version content helpers.pdf_path (helpers.sha256 pdf) finalized_at
  let fault ← Proc.ask (S := reportSignature) .repository_fault
  match (fault : RepositoryFault) with
  | .none =>
      let (_, saved) ← Proc.commit (S := reportSignature) access
      if saved then pure ()
      else
        clean_up helpers
        Proc.throw (.conflict "report changed while it was being finalized")
  | .beforeCommit =>
      clean_up helpers
      Proc.throw .repository
  | .afterCommit =>
      let _ ← Proc.commit (S := reportSignature) access
      clean_up helpers
      Proc.throw .repository

/-- `finalize`. -/
def finalize (owner_id : String) (expected_version : Nat) : Op Unit := do
  let row ← record owner_id
  if row.state = .finalized then pure ()
  else
    raiseIf (row.version ≠ expected_version) (.conflict "report version is stale; reload before finalizing")
    let content ← Proc.ofExcept (helpers.validated (row.content helpers))
    let pdf ← Proc.ask (S := reportSignature) (.render (helpers.render_report_html content))
    match (pdf : Option Bytes) with
    | none => Proc.throw (.render_error "secure PDF rendering failed")
    | some pdf =>
        write_pdf helpers pdf
        finish helpers owner_id expected_version content pdf

end Operations

/-- What clients call. -/
inductive Call
  | save_draft (owner_id : String) (expected_version : Nat) (content : Document)
  | finalize (owner_id : String) (expected_version : Nat)

/-- The procedure of a call. -/
def Call.run (helpers : Helpers) : Call → Op Unit
  | .save_draft owner_id version content => ReportService.save_draft helpers owner_id version content
  | .finalize owner_id version => ReportService.finalize helpers owner_id version

/-- Clients that make such calls. -/
def Clients (helpers : Helpers) (p : Client) : Prop := ∃ call : Call, p = call.run helpers ()

/-! ### What the calls do -/

/-- Does the event write or remove a file? -/
def touches : Event → Bool
  | .committed (.replace _ _) _ _ | .committed (.unlink _) _ _ => true
  | _ => false

/-- Is the event a write of a file with this digest? -/
def writes (helpers : Helpers) (sha : String) : Event → Bool
  | .committed (.replace _ content) _ _ => helpers.sha256 content = sha
  | _ => false

/-- The calls touch the hunt's file only, and finalize with the digest of a file they have written. -/
def FileEvent (helpers : Helpers) (past : List Event) : Event → Prop
  | .committed (.replace path _) _ _ | .committed (.unlink path) _ _ => path = helpers.pdf_path
  | .committed (.finalize _ _ _ path sha _) _ _ =>
      path = helpers.pdf_path ∧ ∃ e ∈ past, writes helpers sha e = true
  | _ => True

section Walk

variable {helpers : Helpers} {s₀ : ReportStore} {past : List Event}

theorem records_raiseIf {c : Prop} [Decidable c] {e : ReportFault} :
    Proc.Records s₀ (FileEvent helpers) past (raiseIf c e) fun _ _ => ¬c :=
  .ite (fun _ => .throw) fun hc => .pure fun _ _ => hc

theorem records_record (owner_id : String) :
    Proc.Records s₀ (FileEvent helpers) past (record owner_id) fun _ _ => True := by
  refine Proc.Records.read.bind fun s past' _ _ => ?_
  cases hrow : s.owned owner_id with
  | none => exact .throw
  | some row => exact .pure fun _ _ => trivial

/-- A write that does not fail has been recorded. -/
theorem records_write_pdf (content : Bytes) :
    Proc.Records s₀ (FileEvent helpers) past (write_pdf helpers content) fun _ past' =>
      ∃ e ∈ past', writes helpers (helpers.sha256 content) e = true := by
  refine Proc.Records.bind (.ask fun _ _ => trivial) fun fails past₁ _ _ => ?_
  cases (fails : Bool) with
  | true => exact .throw
  | false =>
      refine Proc.Records.bind (Proc.Records.commit_recorded fun _ _ _ _ _ _ => rfl) fun _ past₂ _ hwritten => ?_
      obtain ⟨s, s', es, hs⟩ | ⟨-, hrefused⟩ := hwritten
      · refine .pure fun past₃ hlater => ⟨_, (hs.trans hlater).subset List.mem_cons_self, ?_⟩
        simp [writes]
      · cases hrefused

theorem records_clean_up :
    Proc.Records s₀ (FileEvent helpers) past (clean_up helpers) fun _ _ => True := by
  refine Proc.Records.bind (.ask fun _ _ => trivial) fun fails past₁ _ _ => ?_
  cases (fails : Bool) with
  | true => exact .pure fun _ _ => trivial
  | false =>
      refine Proc.Records.bind (Proc.Records.commit fun _ _ _ _ _ _ => rfl) fun _ _ _ _ => ?_
      exact .pure fun _ _ => trivial

theorem records_finish (owner_id : String) (version : Nat) (content : Document) (pdf : Bytes)
    (hwritten : ∃ e ∈ past, writes helpers (helpers.sha256 pdf) e = true) :
    Proc.Records s₀ (FileEvent helpers) past (finish helpers owner_id version content pdf) fun _ _ => True := by
  obtain ⟨e, he, hwrites⟩ := hwritten
  refine Proc.Records.bind (.ask fun _ _ => trivial) fun at_ past₁ hs₁ _ => ?_
  refine Proc.Records.bind (.ask fun _ _ => trivial) fun fault past₂ hs₂ _ => ?_
  have finalizing : Proc.Records (μ := Unit) (ε := ReportFault) s₀ (FileEvent helpers) past₂
      (Proc.commit (S := reportSignature)
        (.finalize owner_id version content helpers.pdf_path (helpers.sha256 pdf) at_)) fun _ _ => True :=
    .commit fun past₃ _ _ hs₃ _ _ => ⟨rfl, e, ((hs₁.trans hs₂).trans hs₃).subset he, hwrites⟩
  cases (fault : RepositoryFault) with
  | none =>
      refine finalizing.bind fun saved past₃ _ _ => .ite (fun _ => .pure fun _ _ => trivial) fun _ => ?_
      exact records_clean_up.bind fun _ _ _ _ => .throw
  | beforeCommit => exact records_clean_up.bind fun _ _ _ _ => .throw
  | afterCommit => exact finalizing.bind fun _ _ _ _ => records_clean_up.bind fun _ _ _ _ => .throw

/-- A call does nothing else. -/
theorem records_call (call : Call) (past : List Event) :
    Proc.Records s₀ (FileEvent helpers) past (call.run helpers) fun _ _ => True := by
  cases call with
  | save_draft owner_id version content =>
      show Proc.Records _ _ _ (save_draft helpers owner_id version content) _
      unfold save_draft
      refine (records_record owner_id).bind fun row _ _ _ => ?_
      refine records_raiseIf.seq fun _ _ => records_raiseIf.seq fun _ _ => ?_
      refine Proc.Records.ofExcept.seq fun normalized _ => ?_
      refine Proc.Records.bind (.ask fun _ _ => trivial) fun at_ _ _ _ => ?_
      refine Proc.Records.bind (.commit fun _ _ _ _ _ _ => trivial) fun saved _ _ _ => ?_
      exact records_raiseIf.mono fun _ _ _ _ => trivial
  | finalize owner_id version =>
      show Proc.Records _ _ _ (finalize helpers owner_id version) _
      unfold finalize
      refine (records_record owner_id).bind fun row _ _ _ => .ite (fun _ => .pure fun _ _ => trivial) fun _ => ?_
      refine records_raiseIf.seq fun _ _ => Proc.Records.ofExcept.seq fun content _ => ?_
      refine Proc.Records.bind (.ask fun _ _ => trivial) fun pdf _ _ _ => ?_
      cases (pdf : Option Bytes) with
      | none => exact .throw
      | some pdf => exact (records_write_pdf pdf).bind fun _ _ _ hwritten => records_finish _ _ _ _ hwritten

end Walk

/-- Every run of the calls is a history of such events. -/
theorem runs_fileEvents {helpers : Helpers} {s₀ : ReportStore} {h : History} {ps : List Client}
    (run : Pool.Run (Clients helpers) s₀ h ps) :
    Leads s₀ h.past h.now ∧ Admitted (FileEvent helpers) h.past := by
  refine runs_record ?_ run
  rintro p ⟨call, rfl⟩ h
  exact Program.Safe.mono (fun _ _ _ => trivial) (records_call call h.past () h (List.suffix_refl _))

/-! ### Finalized reports -/

/-- Is the report finalized? -/
def ReportStore.finalized (s : ReportStore) : Bool := s.report.any (·.state = .finalized)

/-- A finalized report's file is there and has the digest that is stored. -/
def Intact (helpers : Helpers) (s : ReportStore) : Prop :=
  ∀ row, s.report = some row → row.state = .finalized →
    ∃ path content, row.pdf_path = some path ∧ s.files path = some content ∧
      row.pdf_sha256 = some (helpers.sha256 content)

/-- The file steps of a call fall before anyone's finalization is committed, and nobody has touched the file
between the write of a finalization and its commit. -/
def Undisturbed (helpers : Helpers) (past : List Event) : Event → Prop
  | .committed (.replace _ _) before _ | .committed (.unlink _) before _ => before.finalized = false
  | .committed (.finalize _ _ _ _ sha _) _ _ => (past.find? touches).all (writes helpers sha) = true
  | _ => True

instance (helpers : Helpers) (past : List Event) (e : Event) : Decidable (Undisturbed helpers past e) := by
  unfold Undisturbed
  split <;> infer_instance

section Intact

variable {helpers : Helpers} {s₀ s s' s₁ : ReportStore} {past past₀ : List Event} {row : ReportRow}

theorem draft_eq_some {owner_id : String} {version : Nat} (h : s.draft owner_id version = some row) :
    s.report = some row ∧ row.state = .report_draft ∧ row.version = version := by
  obtain ⟨howned, hdraft⟩ := Option.filter_eq_some_iff.mp h
  simp only [Bool.and_eq_true, decide_eq_true_eq] at hdraft
  exact ⟨(Option.filter_eq_some_iff.mp howned).1, hdraft⟩

/-- A finalized row is the row from then on. -/
theorem report_kept {t : Access} (htx : t.effect s = some s') (hrow : s.report = some row)
    (hf : row.state = .finalized) : s'.report = some row := by
  have undrafted : ∀ {owner_id version row'}, s.draft owner_id version ≠ some row' := by
    intro owner_id version row' hdraft
    obtain ⟨hrow', hstate, -⟩ := draft_eq_some hdraft
    rw [hrow] at hrow'
    cases hrow'
    rw [hf] at hstate
    cases hstate
  cases t with
  | update_draft owner_id version content now =>
      obtain ⟨row', hdraft, -⟩ := Option.map_eq_some_iff.mp htx
      exact absurd hdraft undrafted
  | finalize owner_id version content path sha at_ =>
      obtain ⟨row', hdraft, -⟩ := Option.map_eq_some_iff.mp htx
      exact absurd hdraft undrafted
  | replace path content =>
      cases htx
      exact hrow
  | unlink path =>
      cases htx
      exact hrow

/-- The file the last file event has written is there. -/
theorem file_of_last_write {sha : String} (hl : Leads s₀ past s) (hf : Admitted (FileEvent helpers) past)
    {e : Event} (he : past.find? touches = some e) (hw : writes helpers sha e = true) :
    ∃ content, s.files helpers.pdf_path = some content ∧ helpers.sha256 content = sha := by
  induction hl with
  | nil => cases he
  | answered _ ih => exact ih hf.2 he
  | @committed es s t s' hl htx ih =>
      cases t with
      | update_draft owner_id version content now =>
          obtain ⟨content, hfile, hsha⟩ := ih hf.2 he
          obtain ⟨row, -, rfl⟩ := Option.map_eq_some_iff.mp htx
          exact ⟨content, hfile, hsha⟩
      | finalize owner_id version content path sha at_ =>
          obtain ⟨content, hfile, hsha⟩ := ih hf.2 he
          obtain ⟨row, -, rfl⟩ := Option.map_eq_some_iff.mp htx
          exact ⟨content, hfile, hsha⟩
      | replace path content =>
          cases he
          cases htx
          obtain rfl : path = helpers.pdf_path := hf.1
          exact ⟨content, Function.update_self .., of_decide_eq_true hw⟩
      | unlink path =>
          cases he
          cases hw

/-- An undisturbed finalization finds the file it has written. -/
theorem file_of_finalize {owner_id : String} {version : Nat} {content : Document} {path sha : String}
    {at_ : Instant} {after : ReportStore} (hl : Leads s₀ past s) (hf : Admitted (FileEvent helpers) past)
    (he : FileEvent helpers past (.committed (.finalize owner_id version content path sha at_) s after))
    (hu : Undisturbed helpers past (.committed (.finalize owner_id version content path sha at_) s after)) :
    ∃ content, s.files path = some content ∧ helpers.sha256 content = sha := by
  obtain ⟨rfl, e, hmem, hwrites⟩ := he
  have htouches : touches e = true := by
    unfold writes at hwrites
    split at hwrites
    · rfl
    · cases hwrites
  cases hlast : past.find? touches with
  | none => exact absurd htouches (List.find?_eq_none.mp hlast e hmem)
  | some last =>
      have hlastWrites : writes helpers sha last = true := by simpa [Undisturbed, hlast] using hu
      exact file_of_last_write hl hf hlast hlastWrites

/-- An undisturbed event keeps finalized reports intact. -/
theorem Intact.step {t : Access} (hs : Intact helpers s) (hl : Leads s₀ past s)
    (hf : Admitted (FileEvent helpers) past) (htx : t.effect s = some s')
    (he : FileEvent helpers past (.committed (S := reportSignature) t s s'))
    (hu : Undisturbed helpers past (.committed (S := reportSignature) t s s')) : Intact helpers s' := by
  -- a step of the file alone falls before the finalization
  have setFile : ∀ {path content}, s.finalized = false → Intact helpers (s.setFile path content) := by
    intro path content hopen row hrow hfinal
    have hfinalized : s.finalized = true := by simp [ReportStore.finalized, show s.report = some row from hrow, hfinal]
    rw [hopen] at hfinalized
    cases hfinalized
  cases t with
  | update_draft owner_id version content now =>
      obtain ⟨row, hdraft, rfl⟩ := Option.map_eq_some_iff.mp htx
      intro row' hrow' hfinal
      obtain ⟨-, hstate, -⟩ := draft_eq_some hdraft
      cases hrow'
      rw [show row.state = .finalized from hfinal] at hstate
      cases hstate
  | finalize owner_id version content path sha at_ =>
      obtain ⟨bytes, hfile, hsha⟩ := file_of_finalize hl hf he hu
      obtain ⟨row, -, rfl⟩ := Option.map_eq_some_iff.mp htx
      intro row' hrow' hfinal
      cases hrow'
      exact ⟨path, bytes, rfl, hfile, by rw [hsha]⟩
  | replace path content =>
      cases htx
      exact setFile hu
  | unlink path =>
      cases htx
      exact setFile hu

/-- Undisturbed calls keep finalized reports intact. -/
theorem Intact.leads (h₀ : Intact helpers s₀) (hl : Leads s₀ past s) (hf : Admitted (FileEvent helpers) past)
    (hu : Admitted (Undisturbed helpers) past) : Intact helpers s := by
  induction hl with
  | nil => exact h₀
  | answered _ ih => exact ih hf.2 hu.2
  | committed hl htx ih => exact (ih hf.2 hu.2).step hl hf.2 htx hf.1 hu.1

/-- Nothing is done to a finalized report, and to its file, ever after. -/
theorem finalized_kept (hl : Leads s₀ past s) (hu : Admitted (Undisturbed helpers) past) (hp : past₀ <:+ past)
    (hl₀ : Leads s₀ past₀ s₁) (hrow : s₁.report = some row) (hfinal : row.state = .finalized) :
    s.report = some row ∧ s.files = s₁.files := by
  refine hl.since (P := fun _ (s : ReportStore) => s.report = some row ∧ s.files = s₁.files) hp hl₀ ⟨hrow, rfl⟩
    (fun _ _ _ _ _ _ h => h) ?_
  intro es s t s' _ hs htx ⟨hreport, hfiles⟩
  refine ⟨report_kept htx hreport hfinal, ?_⟩
  have hfinalized : s.finalized = true := by simp [ReportStore.finalized, hreport, hfinal]
  have hopen := (hu.suffix hs).1
  cases t with
  | update_draft owner_id version content now =>
      obtain ⟨row', -, rfl⟩ := Option.map_eq_some_iff.mp htx
      exact hfiles
  | finalize owner_id version content path sha at_ =>
      obtain ⟨row', -, rfl⟩ := Option.map_eq_some_iff.mp htx
      exact hfiles
  | replace path content => exact absurd (hfinalized.symm.trans hopen) (by simp)
  | unlink path => exact absurd (hfinalized.symm.trans hopen) (by simp)

end Intact

/-- **Finalized reports.** In every run of any number of saves and finalizations of one hunt's report,
interleaved in any order, in which they do not disturb each other, a finalized report's file is there with
the stored digest, and neither the report nor its file changes any more. -/
theorem finalized_reports_intact (helpers : Helpers) (s₀ : ReportStore) (h₀ : Intact helpers s₀) (h : History)
    (ps : List Client) (run : Pool.Run (Clients helpers) s₀ h ps) (hu : Admitted (Undisturbed helpers) h.past) :
    Intact helpers h.now ∧
      ∀ past₀ s₁ row, past₀ <:+ h.past → Leads s₀ past₀ s₁ → s₁.report = some row → row.state = .finalized →
        h.now.report = some row ∧ h.now.files = s₁.files := by
  obtain ⟨hl, hf⟩ := runs_fileEvents run
  constructor
  · exact h₀.leads hl hf hu
  · intro past₀ s₁ row hp hl₀ hrow hfinal
    exact finalized_kept hl hu hp hl₀ hrow hfinal

/-! ### Two finalizations at once -/

section Examples

/-- Helpers of a small deployment: a digest is the bytes themselves. -/
def sampleHelpers : Helpers where
  truthy document := document ≠ "{}"
  validated := .ok
  render_report_html document := document
  pdf_path := "reports/h.pdf"
  sha256 content := String.ofList (content.map fun byte => Char.ofNat byte.toNat)

/-- A renderer that returns `pdf`, and a repository with this fault. -/
def sampleAnswers (pdf : Bytes) (fault : RepositoryFault) : ∀ q, reportSignature.Answer q
  | .render _ => some pdf
  | .write_fails | .unlink_fails => false
  | .now => (100 : Instant)
  | .repository_fault => fault

/-- The first version of a draft. -/
def sampleDraft : ReportStore where
  report := some {
    report_id := "r", owner_id := "o", state := .report_draft, version := 1, agent_draft := some "[1]"
    draft_content := none, updated_at_utc := 0 }
  files _ := none

theorem sampleDraft_intact : Intact sampleHelpers sampleDraft := by
  intro row hrow hfinal
  cases hrow
  cases hfinal

/-- `n` steps of the `i`-th program, whose renderer returns `pdf`. -/
def stepsOf (i n : Nat) (pdf : Bytes) (fault : RepositoryFault) :
    List (Pool.Turn reportSignature (Except ReportFault Unit × Unit)) :=
  .replicate n (.step (S := reportSignature) i (sampleAnswers pdf fault))

/-- A finalization of the first version starts. -/
def startOne : Pool.Turn reportSignature (Except ReportFault Unit × Unit) :=
  .start (Call.run sampleHelpers (.finalize "o" 1) ())

/-- The turns of a schedule of such finalizations are turns of the calls. -/
theorem playFinalizations (turns : List (Pool.Turn reportSignature (Except ReportFault Unit × Unit)))
    (hturns : ∀ t ∈ turns, ∀ p ∈ t.program, p = Call.run sampleHelpers (.finalize "o" 1) ()) :
    Pool.Run (Clients sampleHelpers) sampleDraft (Pool.exec turns sampleDraft).1 (Pool.exec turns sampleDraft).2 :=
  Pool.exec_run turns fun t ht p hp => ⟨_, hturns t ht p hp⟩

/-- One finalization, alone. -/
theorem finalized_report_intact_alone :
    ∃ h : History, h.now.finalized = true ∧ Intact sampleHelpers h.now := by
  let turns := startOne :: stepsOf 0 7 [37, 80, 68, 70] .none
  have run := playFinalizations turns (by
    intro t ht p hp
    obtain rfl | ht := List.mem_cons.mp ht
    · exact (Option.some.inj hp).symm
    · obtain rfl := List.eq_of_mem_replicate ht
      cases hp)
  exact ⟨_, by decide, (finalized_reports_intact _ _ sampleDraft_intact _ _ run (by decide)).1⟩

/-- Both read the draft, one finalizes it, and the other writes its own file. -/
def overwritten : List (Pool.Turn reportSignature (Except ReportFault Unit × Unit)) :=
  [startOne, startOne] ++ stepsOf 0 1 [] .none ++ stepsOf 1 7 [37, 80, 68, 70, 49] .none ++
    stepsOf 0 3 [37, 80, 68, 70, 50] .none

/-- The other is then refused, and removes the file. -/
def removed : List (Pool.Turn reportSignature (Except ReportFault Unit × Unit)) :=
  overwritten ++ stepsOf 0 5 [] .none

/-- One finalization, whose repository raises after its commit. -/
def unacknowledged : List (Pool.Turn reportSignature (Except ReportFault Unit × Unit)) :=
  startOne :: stepsOf 0 9 [37, 80, 68, 70] .afterCommit

/-- A finalized report whose file does not have its digest is not intact. -/
theorem not_intact {s : ReportStore} {path sha : String} (hfinal : s.finalized = true)
    (hpath : s.report.bind (·.pdf_path) = some path) (hsha : s.report.bind (·.pdf_sha256) = some sha)
    (hfile : (s.files path).map sampleHelpers.sha256 ≠ some sha) : ¬ Intact sampleHelpers s := by
  intro hs
  obtain ⟨row, hrow, hstate⟩ : ∃ row, s.report = some row ∧ row.state = .finalized := by
    simpa [ReportStore.finalized, Option.any_eq_true] using hfinal
  obtain ⟨path', content, hpath', hcontent, hdigest⟩ := hs row hrow hstate
  rw [hrow, Option.bind_some, hpath'] at hpath
  rw [hrow, Option.bind_some, hdigest] at hsha
  cases hpath
  cases hsha
  exact hfile (by rw [hcontent, Option.map_some])

/-- A finalization that loses replaces the winner's file and then removes it, and one whose commit is not
acknowledged removes its own. -/
theorem losing_finalization_removes_the_file :
    (∃ h ps, Pool.Run (Clients sampleHelpers) sampleDraft h ps ∧ (h.now.files "reports/h.pdf").isSome = true ∧
      ¬ Intact sampleHelpers h.now) ∧
    (∃ h ps, Pool.Run (Clients sampleHelpers) sampleDraft h ps ∧ h.now.files "reports/h.pdf" = none ∧
      ¬ Intact sampleHelpers h.now) ∧
    ∃ h ps, Pool.Run (Clients sampleHelpers) sampleDraft h ps ∧ ps.length = 1 ∧ ¬ Intact sampleHelpers h.now := by
  have finalizations : ∀ turns ∈ [overwritten, removed, unacknowledged], ∀ t ∈ turns, ∀ p ∈ t.program,
      p = Call.run sampleHelpers (.finalize "o" 1) () := by
    intro turns hturns t ht p hp
    have hstep : ∀ {i n pdf fault}, t ∉ stepsOf i n pdf fault := by
      intro i n pdf fault hmem
      obtain rfl := List.eq_of_mem_replicate hmem
      cases hp
    have hstart : t = startOne := by
      simp only [List.mem_cons, List.not_mem_nil, or_false] at hturns
      obtain rfl | rfl | rfl := hturns
      · simpa [overwritten, hstep] using ht
      · simpa [removed, overwritten, hstep] using ht
      · simpa [unacknowledged, hstep] using ht
    rw [hstart] at hp
    exact (Option.some.inj hp).symm
  have run := fun turns hturns => playFinalizations turns (finalizations turns hturns)
  refine ⟨⟨_, _, run overwritten (by simp), by decide, ?_⟩,
    ⟨_, _, run removed (by simp), by decide, ?_⟩, ⟨_, _, run unacknowledged (by simp), by decide, ?_⟩⟩
  · exact not_intact (by decide) (show _ = some "reports/h.pdf" by decide)
      (show _ = some "%PDF1" by decide) (by decide)
  · exact not_intact (by decide) (show _ = some "reports/h.pdf" by decide)
      (show _ = some "%PDF1" by decide) (by decide)
  · exact not_intact (by decide) (show _ = some "reports/h.pdf" by decide)
      (show _ = some "%PDF" by decide) (by decide)

end Examples

end ReportService

end ThreatHunting
