import ThreatHunting.Lib.Recording
import ThreatHunting.Services.Transitions

/-!
# ThreatHunting.Services.Reports

The report of a hunt as an optimistic lock. A save and a finalization both name the version
they were made for, and both are refused unless the hunt's draft still has that version. A
finalization renders the document from a row it has read before; as versions only grow, that
row is the stored one whenever the finalization is accepted.
-/

namespace ThreatHunting

open Store Op

namespace WorkflowService

variable {helpers : Helpers} {s₀ : Database}

/-! ### The writes of the report's operations -/

/-- The condition of both: a draft of this version. -/
def draftOf (version : Nat) : Expect :=
  { state := some .report_draft, report_state := some .report_draft, report_version := some version }

/-- What the report's operations write, and where it comes from. -/
inductive ReportWrite (helpers : Helpers) (s₀ : Database) (past : List Event) : Transaction → Prop
  | save {owner_id hunt_id version content at_} : ReportWrite helpers s₀ past
      (.update .save_report owner_id hunt_id (draftOf version)
        { report_content := some content, report_version := some (version + 1), updated_at_utc := at_ })
  | finalize {owner_id hunt_id version row stored content at_} : Seen s₀ past hunt_id row →
      row.report_version = some version → row.report_content = some stored →
      helpers.validate_report_content stored row.results = .ok content → ReportWrite helpers s₀ past
      (.update .finalize_report owner_id hunt_id (draftOf version)
        { state := some .finalized, report_state := some .finalized
          report_pdf := some (helpers.formatted_pdf row.title content), updated_at_utc := at_ })

/-- Every transaction is one of those. -/
def ReportEvent (helpers : Helpers) (s₀ : Database) (past : List Event) : Event → Prop
  | .committed t _ _ => ReportWrite helpers s₀ past t
  | .answered _ _ => True

/-- Calls of `save_report` and `finalize_report`. -/
inductive ReportCall
  | save (owner_id : String) (hunt_id : Uuid) (version : Nat) (content : ReportContent)
  | finalize (owner_id : String) (hunt_id : Uuid) (version : Nat)

/-- The procedure of a call. -/
def ReportCall.run (helpers : Helpers) : ReportCall → Op Unit
  | .save owner_id hunt_id version content => save_report helpers owner_id hunt_id version content
  | .finalize owner_id hunt_id version => finalize_report helpers owner_id hunt_id version

/-- Clients that make such calls. -/
def ReportClients (helpers : Helpers) (p : Client) : Prop := ∃ call counters, p = ReportCall.run helpers call counters

section Walk

variable {past : List Event}

theorem records_raiseIf {c : Prop} [Decidable c] {e : Fault} :
    Proc.Records s₀ (ReportEvent helpers s₀) past (raiseIf c e) fun _ _ => ¬c :=
  .ite (fun _ => .throw) fun hc => .pure fun _ _ => hc

theorem records_now : Proc.Records s₀ (ReportEvent helpers s₀) past now fun _ _ => True :=
  .ask fun _ _ => trivial

theorem records_ofOption {α : Type} {x : Option α} {e : Fault} :
    Proc.Records s₀ (ReportEvent helpers s₀) past (ofOption x e) fun a _ => x = some a := by
  cases x with
  | none => exact .throw
  | some a => exact .pure fun _ _ => rfl

theorem records_owned_row (owner_id : String) (hunt_id : Uuid) :
    Proc.Records s₀ (ReportEvent helpers s₀) past (owned_row owner_id hunt_id) fun row past' =>
      Seen s₀ past' hunt_id row := by
  refine Proc.Records.read.bind fun db past₁ _ ⟨past₀, hp, hl⟩ => ?_
  refine records_ofOption.mono fun row past₂ hs hrow => ?_
  exact ⟨past₀, db, hp.trans hs, hl, (owned_eq_some.mp hrow).1⟩

theorem records_update {writer : Writer} {owner_id : String} {hunt_id : Uuid} {expect : Expect}
    {values : Values}
    (hw : ∀ past', past <:+ past' → ReportWrite helpers s₀ past' (.update writer owner_id hunt_id expect values)) :
    Proc.Records s₀ (ReportEvent helpers s₀) past (update writer owner_id hunt_id expect values) fun _ _ => True := by
  refine (Proc.Records.commit fun past' _ _ hs _ _ => hw past' hs).bind fun _ _ _ _ => ?_
  exact records_raiseIf.mono fun _ _ _ _ => trivial

/-- A call makes only such writes. -/
theorem records_call (call : ReportCall) (past : List Event) :
    Proc.Records s₀ (ReportEvent helpers s₀) past (call.run helpers) fun _ _ => True := by
  cases call with
  | save owner_id hunt_id version content =>
      show Proc.Records _ _ _ (save_report helpers owner_id hunt_id version content) _
      unfold save_report
      refine (records_owned_row owner_id hunt_id).bind fun row past₁ _ _ => ?_
      refine records_raiseIf.seq fun _ _ => records_raiseIf.seq fun _ _ => records_raiseIf.seq fun _ _ => ?_
      refine Proc.Records.ofExcept.seq fun content _ => records_now.seq fun updated _ => ?_
      exact records_update fun _ _ => .save
  | finalize owner_id hunt_id version =>
      show Proc.Records _ _ _ (finalize_report helpers owner_id hunt_id version) _
      unfold finalize_report
      refine (records_owned_row owner_id hunt_id).bind fun row past₁ _ hseen => ?_
      refine records_raiseIf.seq fun _ hdraft => records_ofOption.seq fun stored hstored => ?_
      refine Proc.Records.ofExcept.seq fun content hcontent => records_now.seq fun updated _ => ?_
      have hversion : row.report_version = some version := by
        by_contra hne
        exact hdraft (.inr hne)
      exact records_update fun _ hs => .finalize (hseen.later hs) hversion hstored hcontent

end Walk

/-- Every run of such clients is a history of such writes. -/
theorem runs_report {h : History} {ps : List Client} (run : Pool.Run (ReportClients helpers) s₀ h ps) :
    Leads s₀ h.past h.now ∧ Admitted (ReportEvent helpers s₀) h.past := by
  refine runs_record ?_ run
  rintro p ⟨call, counters, rfl⟩ h
  refine Program.Safe.mono (fun _ _ _ => trivial) (records_call call h.past counters h (List.suffix_refl _))

/-! ### What a write does to the report of one hunt -/

/-- A draft of this version. -/
def HuntRow.Drafts (row : HuntRow) (version : Nat) : Prop :=
  row.state = .report_draft ∧ row.report_state = some .report_draft ∧ row.report_version = some version

theorem drafts_of_matches {row : HuntRow} {version : Nat} (h : (draftOf version).matches row = true) :
    HuntRow.Drafts row version := by
  simp only [Expect.matches, draftOf, Option.all_some, Option.all_none, Bool.and_eq_true, decide_eq_true_eq] at h
  exact ⟨h.1.1.1.symm, h.1.2.symm, h.2.symm⟩

/-- A hunt's report is left alone, or its draft is saved as the next version, or its draft is
finalized with the document of its validated content. -/
inductive ReportStep (helpers : Helpers) (hunt_id : Uuid) : Transaction → Option HuntRow → Option HuntRow → Prop
  | kept {t r} : t.target ≠ some hunt_id → ReportStep helpers hunt_id t r r
  | saved {owner_id version content at_ row} : HuntRow.Drafts row version → ReportStep helpers hunt_id
      (.update .save_report owner_id hunt_id (draftOf version)
        { report_content := some content, report_version := some (version + 1), updated_at_utc := at_ })
      (some row)
      (some { row with
        report_content := some content, report_version := some (version + 1), updated_at_utc := at_ })
  | finalized {owner_id version stored content at_ row} : HuntRow.Drafts row version →
      row.report_content = some stored → helpers.validate_report_content stored row.results = .ok content →
      ReportStep helpers hunt_id
      (.update .finalize_report owner_id hunt_id (draftOf version)
        { state := some .finalized, report_state := some .finalized
          report_pdf := some (helpers.formatted_pdf row.title content), updated_at_utc := at_ })
      (some row)
      (some { row with
        state := .finalized, report_state := some .finalized
        report_pdf := some (helpers.formatted_pdf row.title content), updated_at_utc := at_ })

/-- Every event does that to the report of every hunt. -/
def KeepsReports (helpers : Helpers) (_ : List Event) : Event → Prop
  | .committed t before after =>
      ∀ hunt_id, ReportStep helpers hunt_id t (before.hunts hunt_id) (after.hunts hunt_id)
  | .answered _ _ => True

/-- What a row may have become: it is as it was, or finalized, or of a later version. -/
def Outgrown (row row' : HuntRow) : Prop :=
  row' = row ∨ row'.report_state = some .finalized ∨
    ∃ v v', row.report_version = some v ∧ row'.report_version = some v' ∧ v < v'

/-- A step of the row keeps it outgrown. -/
theorem Outgrown.step {hunt_id : Uuid} {t : Transaction} {row row' : HuntRow} {r : Option HuntRow}
    (h : Outgrown row row') (hs : ReportStep helpers hunt_id t (some row') r) :
    ∃ row'', r = some row'' ∧ Outgrown row row'' := by
  cases hs with
  | kept _ => exact ⟨row', rfl, h⟩
  | @saved _ version _ _ _ hd =>
      refine ⟨_, rfl, .inr (.inr ?_)⟩
      obtain rfl | hfinal | ⟨v, v', hv, hv', hlt⟩ := h
      · exact ⟨version, version + 1, hd.2.2, rfl, by omega⟩
      · rw [hd.2.1] at hfinal
        cases hfinal
      · rw [hd.2.2] at hv'
        cases hv'
        exact ⟨v, version + 1, hv, rfl, by omega⟩
  | finalized => exact ⟨_, rfl, .inr (.inl rfl)⟩

section Run

variable {past past₀ : List Event} {s s₁ : Database} {hunt_id : Uuid} {row : HuntRow}

/-- A row that was stored has been outgrown since, at most. -/
theorem outgrown_since (hl : Leads s₀ past s) (hk : Admitted (KeepsReports helpers) past)
    (hp : past₀ <:+ past) (hl₀ : Leads s₀ past₀ s₁) (hrow : s₁.hunts hunt_id = some row) :
    ∃ row', s.hunts hunt_id = some row' ∧ Outgrown row row' := by
  refine hl.since (P := fun _ (db : Database) => ∃ row', db.hunts hunt_id = some row' ∧ Outgrown row row') hp hl₀
    ⟨row, hrow, .inl rfl⟩ (fun _ _ _ _ _ _ h => h) ?_
  intro es s t s' _ hs _ ⟨row', hrow', hout⟩
  have hstep := (hk.suffix hs).1 hunt_id
  rw [hrow'] at hstep
  exact hout.step hstep

/-- The writes of the report's operations keep the reports. -/
theorem reportStep_of_write {t : Transaction} {s' : Database} (hl : Leads s₀ past s)
    (hk : Admitted (KeepsReports helpers) past) (htx : t.effect s = some s')
    (hw : ReportWrite helpers s₀ past t) (hunt_id : Uuid) :
    ReportStep helpers hunt_id t (s.hunts hunt_id) (s'.hunts hunt_id) := by
  have hstep := rowStep htx hunt_id
  generalize hr : s.hunts hunt_id = r at hstep ⊢
  generalize s'.hunts hunt_id = r' at hstep ⊢
  cases hw with
  | save =>
      cases hstep with
      | same hne => exact .kept hne
      | update hm => exact .saved (drafts_of_matches hm)
  | finalize hseen hversion hstored hcontent =>
      cases hstep with
      | same hne => exact .kept hne
      | update hm =>
          -- the draft still has the version that was read, so it is the row that was read
          have hd := drafts_of_matches hm
          obtain ⟨past₀, s₁, hp, hl₀, hrow⟩ := hseen
          obtain ⟨row', hrow', hout⟩ := outgrown_since hl hk hp hl₀ hrow
          rw [hr] at hrow'
          cases hrow'
          obtain rfl | hfinal | ⟨v, v', hv, hv', hlt⟩ := hout
          · exact .finalized hd hstored hcontent
          · rw [hd.2.1] at hfinal
            cases hfinal
          · rw [hversion] at hv
            rw [hd.2.2] at hv'
            cases hv
            cases hv'
            omega

/-- Every history of such writes keeps the reports. -/
theorem keeps_reports (hl : Leads s₀ past s) (hw : Admitted (ReportEvent helpers s₀) past) :
    Admitted (KeepsReports helpers) past := by
  induction hl with
  | nil => trivial
  | answered _ ih => exact ⟨trivial, ih hw.2⟩
  | committed hl htx ih => exact ⟨reportStep_of_write hl (ih hw.2) htx hw.1, ih hw.2⟩

/-- A finalized report is never changed. -/
theorem finalized_kept (hl : Leads s₀ past s) (hk : Admitted (KeepsReports helpers) past) (hp : past₀ <:+ past)
    (hl₀ : Leads s₀ past₀ s₁) (hrow : s₁.hunts hunt_id = some row) (hf : row.report_state = some .finalized) :
    s.hunts hunt_id = some row := by
  refine hl.since (P := fun _ (db : Database) => db.hunts hunt_id = some row) hp hl₀ hrow
    (fun _ _ _ _ _ _ h => h) ?_
  intro es s t s' _ hs _ hrow'
  have hstep := (hk.suffix hs).1 hunt_id
  rw [hrow'] at hstep
  have undrafted : ∀ {version}, ¬HuntRow.Drafts row version := by
    intro version hd
    rw [hd.2.1] at hf
    cases hf
  generalize s'.hunts hunt_id = r' at hstep ⊢
  cases hstep with
  | kept _ => rfl
  | saved hd => exact absurd hd undrafted
  | finalized hd => exact absurd hd undrafted

/-- Is the event a finalization of the hunt's report? -/
def finalizes (hunt_id : Uuid) : Event → Bool
  | .committed (.update .finalize_report _ id _ _) _ _ => id = hunt_id
  | _ => false

theorem eq_of_finalizes {e : Event} (h : finalizes hunt_id e = true) :
    ∃ owner_id expect values before after, e = .committed (S := signature)
      (Transaction.update .finalize_report owner_id hunt_id expect values) before after := by
  unfold finalizes at h
  split at h
  next owner_id id expect values before after =>
    obtain rfl := of_decide_eq_true h
    exact ⟨owner_id, expect, values, before, after, rfl⟩
  next => cases h

/-- What a finalization leaves of the row: the draft of the version it names, with the document of its
validated content. -/
def FinalizedFrom (helpers : Helpers) (version : Nat) (row : HuntRow) : Prop :=
  row.report_state = some .finalized ∧ row.report_version = some version ∧
    ∃ stored content, row.report_content = some stored ∧
      helpers.validate_report_content stored row.results = .ok content ∧
      row.report_pdf = some (helpers.formatted_pdf row.title content)

/-- A finalization finds the draft of the version it names and leaves it finalized. -/
theorem finalized_at {past : List Event} {owner_id : String} {expect : Expect} {values : Values}
    {before after : Database} (hk : KeepsReports helpers past
      (.committed (S := signature) (Transaction.update .finalize_report owner_id hunt_id expect values) before after)) :
    ∃ row row' version, before.hunts hunt_id = some row ∧ after.hunts hunt_id = some row' ∧
      expect = draftOf version ∧ HuntRow.Drafts row version ∧ FinalizedFrom helpers version row' := by
  have hstep := hk hunt_id
  generalize before.hunts hunt_id = r at hstep ⊢
  generalize after.hunts hunt_id = r' at hstep ⊢
  cases hstep with
  | kept hne => exact absurd rfl hne
  | finalized hd hstored hcontent => exact ⟨_, _, _, rfl, rfl, rfl, hd, rfl, hd.2.2, _, _, hstored, hcontent, rfl⟩

/-- The store after an event of the history. -/
theorem leads_event {t : Transaction} {before after : Database} {es : List Event} (hl : Leads s₀ past s)
    (hs : .committed (S := signature) t before after :: es <:+ past) :
    Leads s₀ (.committed (S := signature) t before after :: es) after := by
  obtain ⟨s', hl'⟩ := hl.suffix hs
  cases hl' with
  | committed hl' htx => exact .committed hl' htx

/-- What a finalization leaves is what is stored from then on. -/
theorem finalized_from {owner_id : String} {expect : Expect} {values : Values} {before after : Database}
    {es : List Event} (hl : Leads s₀ past s) (hk : Admitted (KeepsReports helpers) past)
    (hs : .committed (S := signature) (Transaction.update .finalize_report owner_id hunt_id expect values)
      before after :: es <:+ past) :
    ∃ row version, s.hunts hunt_id = some row ∧ expect = draftOf version ∧ FinalizedFrom helpers version row := by
  obtain ⟨_, row, version, _, hrow, hexpect, _, hfrom⟩ := finalized_at (hk.suffix hs).1
  exact ⟨row, version, finalized_kept hl hk hs (leads_event hl hs) hrow hfrom.1, hexpect, hfrom⟩

/-- At most one finalization is accepted. -/
theorem finalized_once (hl : Leads s₀ past s) (hk : Admitted (KeepsReports helpers) past) (hunt_id : Uuid) :
    past.countP (finalizes hunt_id) ≤ 1 := by
  induction hl with
  | nil => simp
  | answered _ ih => simpa [List.countP_cons, finalizes] using ih hk.2
  | @committed es s t s' hl htx ih =>
      by_cases hf : finalizes hunt_id (.committed t s s') = true
      · -- an earlier finalization would have left the report finalized
        have hnone : es.countP (finalizes hunt_id) = 0 := by
          rw [List.countP_eq_zero]
          intro e he hfe
          obtain ⟨owner, expect, values, before, after, rfl⟩ := eq_of_finalizes hfe
          obtain ⟨l₁, l₂, rfl⟩ := List.append_of_mem he
          obtain ⟨row, version, hrow, _, hfrom⟩ := finalized_from hl hk.2 (List.suffix_append l₁ _)
          obtain ⟨owner', expect', values', before', after', heq⟩ := eq_of_finalizes hf
          have hk' := hk.1
          rw [heq] at hk'
          obtain ⟨row', _, _, hrow', _, _, hd, _⟩ := finalized_at hk'
          cases heq
          rw [hrow] at hrow'
          cases hrow'
          have hdraft := hd.2.1
          rw [hfrom.1] at hdraft
          cases hdraft
        rw [List.countP_cons, if_pos hf]
        omega
      · rw [List.countP_cons, if_neg hf]
        exact ih hk.2

/-- Has a save that names this version been accepted between two times? -/
def SavedBetween (past₀ past : List Event) (hunt_id : Uuid) (version : Nat) : Prop :=
  ∃ owner_id values before after es, past₀ <:+ es ∧
    .committed (S := signature) (Transaction.update .save_report owner_id hunt_id (draftOf version) values)
      before after :: es <:+ past

/-- The report stays the one it was until a save that names its version. -/
theorem report_kept (hl : Leads s₀ past s) (hk : Admitted (KeepsReports helpers) past) (hp : past₀ <:+ past)
    (hl₀ : Leads s₀ past₀ s₁) (hrow : s₁.hunts hunt_id = some row) :
    ∃ row', s.hunts hunt_id = some row' ∧
      (row'.report_version = row.report_version ∧ row'.report_content = row.report_content ∨
        ∃ version, row.report_version = some version ∧ SavedBetween past₀ past hunt_id version) := by
  refine hl.since (P := fun es (db : Database) => ∃ row', db.hunts hunt_id = some row' ∧
      (row'.report_version = row.report_version ∧ row'.report_content = row.report_content ∨
        ∃ version, row.report_version = some version ∧ SavedBetween past₀ es hunt_id version))
    hp hl₀ ⟨row, hrow, .inl ⟨rfl, rfl⟩⟩ ?_ ?_
  · intro es s q a _ _ ⟨row', hrow', h⟩
    refine ⟨row', hrow', h.imp id ?_⟩
    intro ⟨version, hversion, owner_id, values, before, after, es', hes, hs⟩
    exact ⟨version, hversion, owner_id, values, before, after, es', hes, hs.trans (List.suffix_cons _ _)⟩
  · intro es s t s' hes hs _ ⟨row', hrow', h⟩
    have hstep := (hk.suffix hs).1 hunt_id
    rw [hrow'] at hstep
    generalize s'.hunts hunt_id = r' at hstep ⊢
    obtain ⟨hversion, hcontent⟩ | ⟨version, hversion, owner_id, values, before, after, es', hes', hs'⟩ := h
    · cases hstep with
      | kept _ => exact ⟨row', rfl, .inl ⟨hversion, hcontent⟩⟩
      | @saved owner_id version content at_ _ hd =>
          refine ⟨_, rfl, .inr ⟨version, hversion ▸ hd.2.2, owner_id, _, _, _, es, hes, List.suffix_refl _⟩⟩
      | finalized => exact ⟨_, rfl, .inl ⟨hversion, hcontent⟩⟩
    · have later : SavedBetween past₀ (.committed t s s' :: es) hunt_id version :=
        ⟨owner_id, values, before, after, es', hes', hs'.trans (List.suffix_cons _ _)⟩
      cases hstep with
      | kept _ => exact ⟨_, rfl, .inr ⟨version, hversion, later⟩⟩
      | saved => exact ⟨_, rfl, .inr ⟨version, hversion, later⟩⟩
      | finalized => exact ⟨_, rfl, .inr ⟨version, hversion, later⟩⟩

end Run

/-- A save finds the draft of the version it names and leaves the next one. -/
theorem saved_at {past : List Event} {hunt_id : Uuid} {owner_id : String} {expect : Expect} {values : Values}
    {before after : Database} (hk : KeepsReports helpers past
      (.committed (S := signature) (Transaction.update .save_report owner_id hunt_id expect values) before after)) :
    ∃ row row' version, before.hunts hunt_id = some row ∧ after.hunts hunt_id = some row' ∧
      expect = draftOf version ∧ row.report_version = some version ∧
      row'.report_version = some (version + 1) ∧ row'.report_content = values.report_content := by
  have hstep := hk hunt_id
  generalize before.hunts hunt_id = r at hstep ⊢
  generalize after.hunts hunt_id = r' at hstep ⊢
  cases hstep with
  | kept hne => exact absurd rfl hne
  | saved hd => exact ⟨_, _, _, rfl, rfl, rfl, hd.2.2, rfl, rfl⟩

/-- The report is locked by its version. -/
structure ReportLock (helpers : Helpers) (s₀ : Database) (h : History) : Prop where
  /-- A save moves the version it names to the next one. -/
  saves : ∀ {hunt_id owner_id expect values before after past},
    .committed (S := signature) (Transaction.update .save_report owner_id hunt_id expect values) before after ::
      past <:+ h.past →
    ∃ row row' version, before.hunts hunt_id = some row ∧ after.hunts hunt_id = some row' ∧
      expect = draftOf version ∧ row.report_version = some version ∧
      row'.report_version = some (version + 1) ∧ row'.report_content = values.report_content
  /-- What is stored at one time is stored at a later one, unless a save has named its version. -/
  replaced : ∀ {hunt_id past₁ past₂ s₁ s₂ row}, past₁ <:+ past₂ → past₂ <:+ h.past → Leads s₀ past₁ s₁ →
    Leads s₀ past₂ s₂ → s₁.hunts hunt_id = some row →
    ∃ row', s₂.hunts hunt_id = some row' ∧
      (row'.report_version = row.report_version ∧ row'.report_content = row.report_content ∨
        ∃ version, row.report_version = some version ∧ SavedBetween past₁ past₂ hunt_id version)
  finalized_once : ∀ hunt_id, h.past.countP (finalizes hunt_id) ≤ 1
  /-- What is stored after a finalization is the document of the version it names. -/
  finalized : ∀ {hunt_id owner_id expect values before after past},
    .committed (S := signature) (Transaction.update .finalize_report owner_id hunt_id expect values) before after ::
      past <:+ h.past →
    ∃ row version, h.now.hunts hunt_id = some row ∧ expect = draftOf version ∧ FinalizedFrom helpers version row
  /-- A row that was finalized at some time is never changed. -/
  frozen : ∀ {hunt_id past s row}, past <:+ h.past → Leads s₀ past s → s.hunts hunt_id = some row →
    row.report_state = some .finalized → h.now.hunts hunt_id = some row

/-- A hunt whose report is a draft. -/
def exampleDraft : HuntRow :=
  { exampleRow .report_draft with
    report_id := some "r", report_version := some 1, report_state := some .report_draft
    report_content := some ⟨none, "report"⟩ }

end WorkflowService

end ThreatHunting
