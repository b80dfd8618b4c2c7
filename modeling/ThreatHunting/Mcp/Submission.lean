import ThreatHunting.Lib.Ownership
import ThreatHunting.Mcp.Connector

/-!
# ThreatHunting.Mcp.Submission

A submission reaches the transport at most once. Whoever inserts the ledger row of a subject, an
idempotency key and an action digest owns that submission, and only its owner invokes it; whoever
finds the row asks for the status instead. A row keeps its key and its digest, so no call for a key
is made with another digest.
-/

namespace ThreatHunting

open Store

namespace Mcp.Connector

/-! ### Submissions -/

/-- A key and the digest of the action it stands for. -/
abbrev Submission := (String × String) × String

/-- The submission of an envelope. -/
def Envelope.submission (e : Envelope) : Submission := (e.key, e.action_digest)

/-- The transport call of an event, if it invokes one. -/
def callOf : Event → Option TransportCall
  | .answered (.invoke call) _ => some call
  | _ => none

/-- The event invokes the transport for this submission. -/
def InvokesFor (r : Submission) (e : Event) : Prop :=
  ∃ call, callOf e = some call ∧ call.submission.map Envelope.submission = some r

/-- The event invokes the transport's submit for this submission. -/
def isSubmit (r : Submission) (e : Event) : Bool :=
  match callOf e with
  | some call => call.operation = .submit && call.submission.map Envelope.submission = some r
  | none => false

/-- The event invokes the transport's submit for this key, whatever the digest. -/
def isSubmitOf (key : String × String) (e : Event) : Bool :=
  match callOf e with
  | some call => call.operation = .submit && call.submission.map Envelope.key = some key
  | none => false

/-- How often a submission was invoked. -/
def submits (r : Submission) (past : List Event) : Nat := past.countP (isSubmit r)

/-- The ledger has a row of the key, and it has the digest. -/
def Reserved (s : Ledger) (r : Submission) : Prop := ∃ row, s.replay r.1 = some row ∧ row.action_digest = r.2

theorem invokesFor_of_isSubmit {r : Submission} {e : Event} (h : isSubmit r e = true) : InvokesFor r e := by
  unfold isSubmit at h
  split at h
  case h_1 call hcall =>
    rw [Bool.and_eq_true, decide_eq_true_eq, decide_eq_true_eq] at h
    exact ⟨call, hcall, h.2⟩
  case h_2 => cases h

theorem submits_cons_of_not {r : Submission} {e : Event} {past : List Event} (h : isSubmit r e = false) :
    submits r (e :: past) = submits r past :=
  List.countP_cons_of_neg (by simp [h])

/-! ### The ledger -/

section Ledger

variable {s s' : Ledger} {r : Submission}

/-- An outcome leaves the key and the digest of a row alone. -/
theorem write_envelope (outcome : Outcome) (now : Instant) (row : RequestRow) :
    (outcome.write now row).key = row.key ∧ (outcome.write now row).action_digest = row.action_digest := by
  cases outcome with
  | polled state =>
      simp only [Outcome.write]
      split <;> exact ⟨rfl, rfl⟩
  | _ => exact ⟨rfl, rfl⟩

/-- A row that is reserved stays so. -/
theorem Reserved.effect {t : Access} (hr : Reserved s r) (h : t.effect s = some s') : Reserved s' r := by
  obtain ⟨row, hrow, hdigest⟩ := hr
  cases t with
  | insert new =>
      simp only [Access.effect] at h
      split at h
      · cases h
      · cases h
        refine ⟨row, ?_, hdigest⟩
        simp only [Ledger.replay] at hrow ⊢
        rw [List.find?_append, hrow, Option.some_or]
  | update request_id outcome now =>
      cases h
      refine ⟨if row.request_id = request_id then outcome.write now row else row, ?_, ?_⟩
      · simp only [Ledger.replay] at hrow ⊢
        rw [List.find?_map]
        have hkey : ((fun row : RequestRow => decide (row.key = r.1)) ∘
            fun row => if row.request_id = request_id then outcome.write now row else row) =
            fun row => decide (row.key = r.1) := by
          funext row
          simp only [Function.comp_apply]
          split
          · rw [(write_envelope outcome now row).1]
          · rfl
        rw [hkey, hrow, Option.map_some]
      · split
        · rw [(write_envelope outcome now row).2, hdigest]
        · exact hdigest

/-- An inserted row is the first of its key. -/
theorem reserved_insert {row : RequestRow} (h : Access.effect (.insert row) s = some s') :
    s.replay row.key = none ∧ Reserved s' row.submission := by
  simp only [Access.effect] at h
  split at h
  case isTrue => cases h
  case isFalse hfree =>
    cases h
    rw [not_or, Option.not_isSome_iff_eq_none, Option.not_isSome_iff_eq_none] at hfree
    refine ⟨hfree.2, row, ?_, rfl⟩
    have hnone : s.find? (fun other => decide (other.key = row.submission.1)) = none := hfree.2
    rw [Ledger.replay, List.find?_append, hnone]
    simp [Envelope.submission]

/-- A key has one digest. -/
theorem Reserved.unique {r' : Submission} (h : Reserved s r) (h' : Reserved s r') (hkey : r.1 = r'.1) : r = r' := by
  obtain ⟨row, hrow, hdigest⟩ := h
  obtain ⟨row', hrow', hdigest'⟩ := h'
  rw [hkey, hrow'] at hrow
  cases hrow
  exact Prod.ext hkey (hdigest.symm.trans hdigest')

end Ledger

/-! ### Who owns a submission -/

/-- A submission is taken once its row is there. The transport is only called for what is taken,
and no submission is invoked twice. -/
def submissions : Estate ledgerSignature Submission Nat where
  admits _ _ := True
  inv h := (∀ e ∈ h.past, ∀ r, InvokesFor r e → Reserved h.now r) ∧ ∀ r, submits r h.past ≤ 1
  view r h := submits r h.past
  taken r h := Reserved h.now r

/-- What was never reserved was never invoked. -/
theorem submits_eq_zero {h : History} {r : Submission} (hI : submissions.inv h) (hr : ¬Reserved h.now r) :
    submits r h.past = 0 := by
  refine List.countP_eq_zero.mpr fun e he hs => ?_
  exact hr (hI.1 e he r (invokesFor_of_isSubmit hs))

section Steps

variable {own : Set Submission} {h : History}

/-- An answer other than a submission's keeps everything, if its call is for what is reserved. -/
theorem conducts_answer {q : Ask} {a : q.Answer} (hI : submissions.inv h) (hown : ∀ r ∈ own, Reserved h.now r)
    (hfor : ∀ r, InvokesFor r (.answered q a) → Reserved h.now r) (hview : ∀ r, isSubmit r (.answered q a) = false) :
    submissions.Conducts own own h (h.answer q a) where
  inv := by
    refine ⟨?_, fun r => ?_⟩
    · intro e he r hr
      rcases List.mem_cons.mp he with rfl | he
      · exact hfor r hr
      · exact hI.1 e he r hr
    · show submits r (.answered q a :: h.past) ≤ 1
      rw [submits_cons_of_not (hview r)]
      exact hI.2 r
  view := fun r _ => submits_cons_of_not (hview r)
  acquired := fun _ hr hr' => absurd hr hr'
  owned := hown
  taken := fun _ hr => hr

/-- The owner invokes its submission, which it has not yet done. -/
theorem conducts_submit {envelope : Envelope} {call : TransportCall} {a : Unit} (hI : submissions.inv h)
    (hcall : call.submission = some envelope) (hr : Reserved h.now envelope.submission)
    (hzero : submits envelope.submission h.past = 0) :
    submissions.Conducts {envelope.submission} {envelope.submission} h (h.answer (.invoke call) a) where
  inv := by
    refine ⟨?_, fun r => ?_⟩
    · intro e he r hfor
      rcases List.mem_cons.mp he with rfl | he
      · obtain ⟨made, hmade, hsub⟩ := hfor
        cases hmade
        rw [hcall] at hsub
        cases hsub
        exact hr
      · exact hI.1 e he r hfor
    · show submits r (_ :: h.past) ≤ 1
      by_cases hs : isSubmit r (.answered (S := ledgerSignature) (.invoke call) a) = true
      · obtain ⟨made, hmade, hsub⟩ := invokesFor_of_isSubmit hs
        cases hmade
        rw [hcall] at hsub
        cases hsub
        rw [submits, List.countP_cons_of_pos hs]
        exact Nat.succ_le_succ hzero.le
      · rw [submits_cons_of_not (Bool.eq_false_iff.mpr hs)]
        exact hI.2 r
  view := by
    intro r hr'
    refine submits_cons_of_not (Bool.eq_false_iff.mpr fun hs => hr' ?_)
    obtain ⟨made, hmade, hsub⟩ := invokesFor_of_isSubmit hs
    cases hmade
    rw [hcall] at hsub
    exact (Option.some.inj hsub).symm
  acquired := fun _ hr hr' => absurd hr hr'
  owned := by
    rintro r rfl
    exact hr
  taken := fun _ hr => hr

/-- A write to the ledger invokes nothing; what it inserts may be acquired. -/
theorem conducts_commit {own' : Set Submission} {t : Access} {s : Ledger} (hI : submissions.inv h)
    (htx : t.effect h.now = some s) (hnew : ∀ r ∈ own', r ∉ own → ¬Reserved h.now r)
    (hown : ∀ r ∈ own', Reserved s r) : submissions.Conducts own own' h (h.commit t s) where
  inv := by
    refine ⟨?_, fun r => ?_⟩
    · intro e he r hr
      rcases List.mem_cons.mp he with rfl | he
      · obtain ⟨call, hcall, -⟩ := hr
        cases hcall
      · exact (hI.1 e he r hr).effect htx
    · exact (submits_cons_of_not (e := .committed t h.now s) rfl).trans_le (hI.2 r)
  view := fun _ _ => submits_cons_of_not (e := .committed t h.now s) rfl
  acquired := hnew
  owned := hown
  taken := fun _ hr => hr.effect htx

end Steps

/-! ### What each operation owns -/

/-- The client owns nothing. -/
def Bare (own : Set Submission) (_ : History) : Prop := own = ∅

/-- The client owns nothing, and has found the row of the submission. -/
def Found (r : Submission) (own : Set Submission) (h : History) : Prop := own = ∅ ∧ Reserved h.now r

/-- The client owns the submission. -/
def Owner (r : Submission) (own : Set Submission) (h : History) : Prop := own = {r} ∧ Reserved h.now r

/-- The client owns the submission, and has not invoked it. -/
def Pending (r : Submission) (own : Set Submission) (h : History) : Prop := Owner r own h ∧ submits r h.past = 0

section Assertions

variable {r : Submission}

theorem steady_bare : Proc.Steady submissions Bare := fun _ hP => hP

theorem steady_found : Proc.Steady submissions (Found r) := fun hu hP => ⟨hP.1, hu.taken _ hP.2⟩

theorem steady_owner : Proc.Steady submissions (Owner r) := fun hu hP => ⟨hP.1, hu.taken _ hP.2⟩

theorem steady_pending : Proc.Steady submissions (Pending r) :=
  fun hu hP => ⟨steady_owner hu hP.1, (hu.view r (hP.1.1 ▸ rfl)).trans hP.2⟩

/-- An assertion about what is owned that neither a quiet answer nor an update falsifies. -/
structure Ownership (P : Set Submission → History → Prop) : Prop where
  steady : Proc.Steady submissions P
  reserved : ∀ {own h}, P own h → ∀ r ∈ own, Reserved h.now r

theorem ownership_bare : Ownership Bare where
  steady := steady_bare
  reserved := by
    rintro _ _ rfl r hr
    exact absurd hr (Set.notMem_empty r)

theorem ownership_found : Ownership (Found r) where
  steady := steady_found
  reserved := fun hP => ownership_bare.reserved hP.1

theorem ownership_owner : Ownership (Owner r) where
  steady := steady_owner
  reserved := by
    rintro _ _ ⟨rfl, hr⟩ _ rfl
    exact hr

theorem ownership_pending : Ownership (Pending r) where
  steady := steady_pending
  reserved := fun hP => ownership_owner.reserved hP.1

end Assertions

/-- What leaves the resources in hand and their views alone looks undisturbed to their owner. -/
theorem undisturbed_of_conducts {own : Set Submission} {h h' : History} (hp : h.past <:+ h'.past)
    (hv : ∀ r ∈ own, submits r h'.past = submits r h.past) (hc : submissions.Conducts own own h h') :
    submissions.Undisturbed own h h' := ⟨hp, hv, hc.taken⟩

section Rules

variable {P : Set Submission → History → Prop} {c : MCPConnector}

/-- A question that is no call. -/
theorem minds_question (hP : Ownership P) (q : Ask) (hq : ∀ a, callOf (.answered q a) = none) {m : Unit}
    {own : Set Submission} {h : History} {X : McpFault → Unit → Set Submission → History → Prop} (hPh : P own h) :
    (Proc.ask (S := ledgerSignature) q : Proc ledgerSignature Unit McpFault _).Minds submissions m own h
      (fun _ _ => P) X := by
  refine Proc.minds_ask fun h' hu hI a _ => ?_
  have hPh' := hP.steady hu hPh
  have hquiet : ∀ r, isSubmit r (.answered q a) = false := by
    intro r
    rw [isSubmit, hq a]
  have hc : submissions.Conducts own own h' (h'.answer q a) := by
    refine conducts_answer hI (hP.reserved hPh') (fun r hr => ?_) hquiet
    obtain ⟨call, hcall, -⟩ := hr
    rw [hq a] at hcall
    cases hcall
  exact ⟨own, hc, hP.steady (undisturbed_of_conducts (List.suffix_cons _ _)
    (fun r _ => submits_cons_of_not (hquiet r)) hc) hPh'⟩

theorem retains_ask (hP : Ownership P) (q : Ask) (hq : ∀ a, callOf (.answered q a) = none) :
    Proc.Retains submissions P (Proc.ask (S := ledgerSignature) q : Proc ledgerSignature Unit McpFault _) :=
  fun _ _ _ hPh => minds_question hP q hq hPh

theorem retains_raiseIf {question : Op Bool} (hq : Proc.Retains submissions P question) (e : McpFault) :
    Proc.Retains submissions P (raiseIf question e) :=
  hq.bind fun _ => .ite (.throw e) (.pure ())

theorem retains_ledger (hP : Ownership P) (message : String) : Proc.Retains submissions P (ledger message) := by
  refine (retains_ask hP .ledger_fails fun _ => rfl).bind fun fault => ?_
  cases fault with
  | none => exact .pure ()
  | some fault => exact .throw _

theorem retains_acknowledged (hP : Ownership P) : Proc.Retains submissions P acknowledged :=
  retains_raiseIf (retains_ask hP .commit_lost fun _ => rfl) _

theorem retains_raise_if_cancelled (hP : Ownership P) (operation : Operation) (cancellable : Bool) :
    Proc.Retains submissions P (raise_if_cancelled operation cancellable) :=
  .ite (retains_raiseIf (retains_ask hP .is_cancelled fun _ => rfl) _) (.pure ())

theorem retains_write (hP : Ownership P) (request_id : String) (outcome : Outcome) :
    Proc.Retains submissions P (write request_id outcome) := by
  refine (retains_ask hP .now fun _ => rfl).bind fun at_ => (retains_ledger hP _).bind fun _ => ?_
  refine Proc.Retains.bind (Proc.Retains.commit hP.steady fun {own h s} hPh hI htx => ?_)
    fun _ => retains_acknowledged hP
  have hc : submissions.Conducts own own h (h.commit (.update request_id outcome at_) s) :=
    conducts_commit hI htx (fun r hr hr' => absurd hr hr') fun r hr =>
      (hP.reserved hPh r hr).effect (t := .update request_id outcome at_) htx
  exact ⟨hc, hP.steady (undisturbed_of_conducts (List.suffix_cons _ _)
    (fun _ _ => submits_cons_of_not (e := .committed _ _ _) rfl) hc) hPh⟩

/-- A call that is not a submit, and is made for no submission or for one that is reserved. -/
theorem retains_call_transport (hP : Ownership P) {call : TransportCall} (cancellable : Bool)
    (hop : call.operation ≠ .submit)
    (hfor : ∀ envelope, call.submission = some envelope → ∀ {own h}, P own h → Reserved h.now envelope.submission) :
    Proc.Retains submissions P (c.call_transport call cancellable) := by
  refine (retains_raise_if_cancelled hP _ _).bind fun _ => ?_
  refine Proc.Retains.bind (Proc.Retains.ask hP.steady fun {own h a} hPh hI _ => ?_) fun _ => ?_
  · have hquiet : ∀ r, isSubmit r (.answered (.invoke call) a) = false := by
      intro r
      simp [isSubmit, callOf, hop]
    have hc : submissions.Conducts own own h (h.answer (.invoke call) a) := by
      refine conducts_answer hI (hP.reserved hPh) (fun r hr => ?_) hquiet
      obtain ⟨made, hmade, hsub⟩ := hr
      cases hmade
      obtain ⟨envelope, henvelope, rfl⟩ := Option.map_eq_some_iff.mp hsub
      exact hfor envelope henvelope hPh
    exact ⟨hc, hP.steady (undisturbed_of_conducts (List.suffix_cons _ _)
      (fun r _ => submits_cons_of_not (hquiet r)) hc) hPh⟩
  · refine (retains_ask hP .respond fun _ => rfl).bind fun response => ?_
    cases response with
    | error raised => exact .throw _
    | ok result => exact (retains_raise_if_cancelled hP _ _).bind fun _ => .ofExcept _

end Rules

/-! ### The operations mind what they own -/

section Operations

variable (c : MCPConnector) {r : Submission} {m : Unit} {own : Set Submission} {h : History}

/-- The postcondition of an operation whose ending does not matter. -/
def Any {α : Type} (_ : α) (_ : Unit) (_ : Set Submission) (_ : History) : Prop := True

theorem minds_any {P : Set Submission → History → Prop} {α : Type} {p : Op α} (hp : Proc.Retains submissions P p)
    (hP : P own h) : p.Minds submissions m own h Any Any :=
  (hp m own h hP).mono (fun _ _ _ _ _ => trivial) fun _ _ _ _ _ => trivial

theorem retains_reconcile_reserved (envelope : Envelope) (row : RequestRow) :
    Proc.Retains submissions (Found envelope.submission) (c.reconcile_reserved envelope row) := by
  refine Proc.Retains.bind (retains_call_transport ownership_found _ (by simp) ?_) fun result => ?_
  · rintro _ ⟨rfl⟩ own h hP
    exact hP.2
  · refine (Proc.Retains.ofExcept _).bind fun found => ?_
    cases found with
    | none => exact .throw _
    | some job => exact (retains_write ownership_found _ _).bind fun _ => .pure _

theorem retains_resume (envelope : Envelope) (row : RequestRow) :
    Proc.Retains submissions (Found envelope.submission) (c.resume envelope row) := by
  unfold MCPConnector.resume
  split
  · exact .pure _
  · exact retains_reconcile_reserved c envelope row

/-- A replay that finds a row finds the submission reserved. -/
theorem load_replay_minds (envelope : Envelope) (hP : Bare own h) :
    (load_replay envelope.key envelope.action_digest).Minds submissions m own h
      (fun found _ own h => Bare own h ∧ (found.isSome → Reserved h.now envelope.submission))
      fun _ _ => Bare := by
  refine Proc.Minds.seq (retains_ledger ownership_bare _ m own h hP) fun _ m₁ own₁ h₁ hP₁ => ?_
  refine Proc.Minds.seq (T := fun s _ own h => Bare own h ∧ ∀ row, s.replay envelope.key = some row →
    row.action_digest = envelope.action_digest → Reserved h.now envelope.submission)
    (Proc.minds_read fun h' hu _ => ⟨steady_bare hu hP₁, fun row hrow hd => ⟨row, hrow, hd⟩⟩) ?_
  rintro s m₂ own₂ h₂ ⟨hP₂, hfound⟩
  cases hrow : s.replay envelope.key with
  | none => exact Proc.minds_pure ⟨hP₂, by simp⟩
  | some row =>
      refine Proc.minds_ite (fun hd => Proc.minds_pure ⟨hP₂, fun _ => hfound row hrow hd⟩) fun _ => ?_
      exact Proc.minds_throw hP₂

/-- An insertion acquires the submission, or the key is somebody else's. Only a failure after the
commit leaves the owner without knowing it. -/
theorem insert_minds {row : RequestRow} (hP : Bare own h) :
    (insert row).Minds submissions m own h (fun _ _ => Pending row.submission)
      fun e _ own _ => e ≠ .sqlalchemy_error → own = ∅ := by
  have hledger := retains_ledger ownership_bare "MCP request ledger write failed" m own h hP
  refine Proc.Minds.seq (hledger.mono (fun _ _ _ _ hP => hP) fun _ _ _ _ hP _ => hP) fun _ m₁ own₁ h₁ hP₁ => ?_
  refine Proc.Minds.seq (T := fun inserted _ own h => if inserted.2 then Pending row.submission own h else Bare own h)
    (Proc.minds_commit ?_ fun h' hu _ _ => steady_bare hu hP₁) ?_
  · intro h' hu hI s htx _
    obtain ⟨hfree, hr⟩ := reserved_insert htx
    have hnew : ¬Reserved h'.now row.submission := by
      rintro ⟨other, hother, -⟩
      rw [show h'.now.replay row.submission.1 = none from hfree] at hother
      cases hother
    have hc : submissions.Conducts own₁ {row.submission} h' (h'.commit (.insert row) s) := by
      refine conducts_commit (t := .insert row) hI htx ?_ ?_
      · rintro r rfl -
        exact hnew
      · rintro r rfl
        exact hr
    refine ⟨_, hc, ⟨rfl, hr⟩, ?_⟩
    exact (submits_cons_of_not (e := .committed _ _ _) rfl).trans (submits_eq_zero hI hnew)
  · rintro ⟨s, inserted⟩ m₂ own₂ h₂ hP₂
    cases inserted with
    | true =>
        refine Proc.Minds.seq (minds_question ownership_pending .commit_lost (fun _ => rfl) hP₂) ?_
        intro lost m₃ own₃ h₃ hP₃
        refine Proc.minds_ite (fun _ => Proc.minds_throw ?_) fun _ => Proc.minds_pure hP₃
        exact fun hne => absurd rfl hne
    | false => exact Proc.minds_throw fun _ => hP₂

/-- A reservation is won, or its row is there. -/
theorem reserve_minds (envelope : Envelope) (hP : Bare own h) :
    (c.reserve envelope).Minds submissions m own h
      (fun found _ => if found.isSome then Found envelope.submission else Pending envelope.submission) Any := by
  refine Proc.Minds.seq (minds_question ownership_bare .now (fun _ => rfl) hP) fun at_ m₁ own₁ h₁ hP₁ => ?_
  refine Proc.Minds.handle (Proc.Minds.seq (insert_minds hP₁) fun _ _ _ _ hP₂ => Proc.minds_pure hP₂) ?_
  intro e m₂ own₂ h₂ hbare
  cases e with
  | adapter_error category message operation =>
      refine Proc.Minds.seq ((load_replay_minds envelope (hbare nofun)).mono (fun _ _ _ _ hP => hP)
        fun _ _ _ _ _ => trivial) ?_
      rintro found m₃ own₃ h₃ ⟨hP₃, hfound⟩
      cases found with
      | none => exact Proc.minds_throw trivial
      | some row => exact Proc.minds_pure ⟨hP₃, hfound rfl⟩
  | _ => exact Proc.minds_throw trivial

/-- The owner of a pending submission calls the transport; afterwards it still owns it. -/
theorem submit_call_minds {envelope : Envelope} {call : TransportCall} (cancellable : Bool)
    (hcall : call.submission = some envelope) (hP : Pending envelope.submission own h) :
    (c.call_transport call cancellable).Minds submissions m own h
      (fun _ _ => Owner envelope.submission) fun _ _ => Owner envelope.submission := by
  refine Proc.Minds.seq ((retains_raise_if_cancelled ownership_pending _ _ m own h hP).mono
    (fun _ _ _ _ hP => hP) fun _ _ _ _ hP => hP.1) fun _ m₁ own₁ h₁ hP₁ => ?_
  refine Proc.Minds.seq (T := fun _ _ => Owner envelope.submission) (Proc.minds_ask fun h' hu hI a _ => ?_) ?_
  · obtain ⟨⟨rfl, hr⟩, hzero⟩ := steady_pending hu hP₁
    exact ⟨_, conducts_submit hI hcall hr hzero, rfl, hr⟩
  · intro _ m₂ own₂ h₂ hP₂
    refine Proc.Minds.seq (minds_question ownership_owner .respond (fun _ => rfl) hP₂) ?_
    intro response m₃ own₃ h₃ hP₃
    cases response with
    | error raised => exact Proc.minds_throw hP₃
    | ok result =>
        exact (retains_raise_if_cancelled ownership_owner _ _).bind (fun _ => .ofExcept _) m₃ own₃ h₃ hP₃

theorem dispatch_minds (envelope : Envelope) (arguments : ModelOutput.Members) (cancellable : Bool)
    (hP : Pending envelope.submission own h) :
    (c.dispatch envelope arguments cancellable).Minds submissions m own h Any Any := by
  refine Proc.Minds.seq (T := fun _ _ => Owner envelope.submission) ?_ ?_
  · refine Proc.Minds.handle (Y := fun _ _ => Owner envelope.submission) ?_ ?_
    · refine Proc.Minds.seq (submit_call_minds c cancellable rfl hP) fun result m₁ own₁ h₁ hP₁ => ?_
      exact Proc.Retains.bind (.ofExcept _) (fun found => .pure _) m₁ own₁ h₁ hP₁
    · intro e m₁ own₁ h₁ hP₁
      cases e with
      | adapter_error category message operation =>
          refine Proc.Minds.seq ((retains_write ownership_owner _ _ m₁ own₁ h₁ hP₁).mono
            (fun _ _ _ _ hP => hP) fun _ _ _ _ _ => trivial) ?_
          exact fun _ _ _ _ _ => Proc.minds_throw trivial
      | _ => exact Proc.minds_throw trivial
  · intro job m₁ own₁ h₁ hP₁
    exact minds_any ((retains_write ownership_owner _ _).bind fun _ => .pure _) hP₁

theorem submitPrepared_minds (envelope : Envelope) (arguments : ModelOutput.Members) (cancellable : Bool)
    (hP : Bare own h) : (c.submitPrepared envelope arguments cancellable).Minds submissions m own h Any Any := by
  refine Proc.Minds.seq ((load_replay_minds envelope hP).mono (fun _ _ _ _ hP => hP) fun _ _ _ _ _ => trivial) ?_
  rintro found m₁ own₁ h₁ ⟨hP₁, hfound⟩
  cases found with
  | some row => exact minds_any (retains_resume c envelope row) ⟨hP₁, hfound rfl⟩
  | none =>
      refine Proc.Minds.seq (reserve_minds c envelope hP₁) fun found m₂ own₂ h₂ hP₂ => ?_
      cases found with
      | some row => exact minds_any (retains_resume c envelope row) hP₂
      | none => exact dispatch_minds c envelope arguments cancellable hP₂

theorem submit_minds (request : SubmitRequest) (hP : Bare own h) :
    (c.submit request).Minds submissions m own h Any Any := by
  refine Proc.Minds.seq (T := fun _ _ => Bare) (Proc.minds_ofExcept (fun _ _ => hP) fun _ _ => trivial) ?_
  intro tool m₁ own₁ h₁ hP₁
  refine Proc.Minds.seq (T := fun _ _ => Bare) (Proc.minds_ofExcept (fun _ _ => hP₁) fun _ _ => trivial) ?_
  rintro ⟨_, arguments, envelope⟩ m₂ own₂ h₂ hP₂
  exact submitPrepared_minds c envelope arguments request.cancellable hP₂

theorem retains_resolve_job (job_id : String) : Proc.Retains submissions Bare (MCPConnector.resolve_job job_id) := by
  refine .ite (.throw _) ((retains_ask ownership_bare .ledger_fails fun _ => rfl).bind fun fault => ?_)
  cases fault with
  | none =>
      refine (Proc.Retains.read steady_bare).bind fun s => ?_
      cases s.job (String.ofList (strip job_id.toList)) with
      | none => exact .pure _
      | some row => exact .pure _
  | some fault =>
      cases fault with
      | table => exact .pure _
      | statement => exact .throw _
      | connection => exact .throw _

theorem retains_status (job_id : String) (cancellable : Bool) :
    Proc.Retains submissions Bare (c.status job_id cancellable) := by
  refine (retains_resolve_job job_id).bind fun resolved => ?_
  refine Proc.Retains.bind (retains_call_transport ownership_bare _ (by simp) (by simp)) fun response => ?_
  refine (Proc.Retains.ofExcept _).bind fun result => ?_
  obtain ⟨provider_job, row⟩ := resolved
  cases row with
  | none => exact .pure _
  | some row =>
      refine (Proc.Retains.ofExcept _).bind fun state => ?_
      exact (retains_write ownership_bare _ _).bind fun _ => .pure _

theorem retains_cancel (job_id : String) : Proc.Retains submissions Bare (c.cancel job_id) := by
  refine (retains_resolve_job job_id).bind fun resolved => ?_
  refine Proc.Retains.bind (retains_call_transport ownership_bare _ (by simp) (by simp)) fun response => ?_
  refine (Proc.Retains.ofExcept _).bind fun result => ?_
  dsimp only
  split
  · exact (retains_write ownership_bare _ _).bind fun _ => .pure _
  · exact .pure _

end Operations

/-! ### Every interleaving -/

/-- A call minds what its procedure minds. -/
theorem call_minds {α : Type} {p : Op α} {own : Set Submission} {h : History}
    (hp : p.Minds submissions () own h Any Any) :
    (MCPConnector.call p).Minds submissions own (Proc.ending Any Any) h :=
  (Proc.Minds.seq (Q := Any) hp fun _ _ _ _ _ => Proc.minds_pure trivial).program

/-- A call of a connector is started with nothing. -/
theorem calls_minds {p : Client} (hp : MCPConnector.Calls p) (h : History) :
    p.Minds submissions ∅ (Proc.ending Any Any) h := by
  have hbare : Bare ∅ h := rfl
  cases hp with
  | submit c request => exact call_minds (submit_minds c request hbare)
  | status c job_id cancellable => exact call_minds (minds_any (retains_status c job_id cancellable) hbare)
  | cancel c job_id => exact call_minds (minds_any (retains_cancel c job_id) hbare)

/-- In every interleaving, the transport is only called for reserved submissions, and no submission is
invoked twice. -/
theorem run_submissions {s₀ : Ledger} {h : History} {ps : List Client}
    (run : Pool.Run MCPConnector.Calls s₀ h ps) : submissions.inv h := by
  have hsteady : ∀ (r : Except McpFault Unit × Unit) own h h', submissions.Undisturbed own h h' →
      Proc.ending Any Any r own h → Proc.ending Any Any r own h' := by
    rintro ⟨r, _⟩ own h h' -
    cases r <;> exact fun _ => trivial
  have hempty : submissions.inv ⟨s₀, []⟩ := ⟨fun _ he => absurd he List.not_mem_nil, fun _ => Nat.zero_le 1⟩
  exact (Pool.Run.owned hsteady (fun p hp h _ => calls_minds hp h) hempty run (.of_forall (fun _ _ => trivial) _)).1

/-- The submissions of a key are those of its digest. -/
theorem submits_of_key {h : History} {r : Submission} (hI : submissions.inv h) (hr : Reserved h.now r) :
    h.past.countP (isSubmitOf r.1) ≤ submits r h.past := by
  refine List.countP_mono_left fun e he hs => ?_
  unfold isSubmitOf at hs
  split at hs
  case h_2 => cases hs
  case h_1 call hcall =>
    rw [Bool.and_eq_true, decide_eq_true_eq, decide_eq_true_eq] at hs
    obtain ⟨envelope, henvelope, hkey⟩ := Option.map_eq_some_iff.mp hs.2
    have hfor : InvokesFor envelope.submission e := ⟨call, hcall, by rw [henvelope, Option.map_some]⟩
    have hsame : envelope.submission = r := (hI.1 e he _ hfor).unique hr hkey
    simp [isSubmit, hcall, hs.1, henvelope, hsame]

/-- **At most one submit.** In every interleaving of calls on one ledger, whatever the transport answers
and wherever a call fails or is never heard of again, the transport's submit is invoked at most once for a
subject and an idempotency key, and every call made for them carries the digest of their row. -/
theorem submitted_at_most_once {s₀ : Ledger} {h : History} {ps : List Client}
    (run : Pool.Run MCPConnector.Calls s₀ h ps) (key : String × String) :
    h.past.countP (isSubmitOf key) ≤ 1 ∧
      ∀ e ∈ h.past, ∀ call envelope, callOf e = some call → call.submission = some envelope →
        envelope.key = key → ∃ row, h.now.replay key = some row ∧ row.action_digest = envelope.action_digest := by
  have hI := run_submissions run
  refine ⟨?_, ?_⟩
  · by_cases hr : ∃ digest, Reserved h.now (key, digest)
    · obtain ⟨digest, hr⟩ := hr
      exact (submits_of_key hI hr).trans (hI.2 _)
    · refine (List.countP_eq_zero.mpr fun e he hs => ?_).trans_le (Nat.zero_le 1)
      unfold isSubmitOf at hs
      split at hs
      case h_2 => cases hs
      case h_1 call hcall =>
        rw [Bool.and_eq_true, decide_eq_true_eq, decide_eq_true_eq] at hs
        obtain ⟨envelope, henvelope, rfl⟩ := Option.map_eq_some_iff.mp hs.2
        exact hr ⟨_, hI.1 e he envelope.submission ⟨call, hcall, by rw [henvelope, Option.map_some]⟩⟩
  · rintro e he call envelope hcall hsub rfl
    exact hI.1 e he envelope.submission ⟨call, hcall, by rw [hsub, Option.map_some]⟩

/-! Two workers submit under one key. Both find no row; one reserves it, and the other's insertion is
refused, so it asks for the status of what the first is about to submit. -/

/-- A connector with constants for what it rests on. -/
def sampleConnector : MCPConnector where
  service_subject := some "worker"
  submit_tool := "search_splunk"
  max_response_bytes := 1000
  str _ := "value"
  loads _ := none
  sha256 _ := "digest"
  uuid5 name := name
  recursion_limit := 5

def sampleRequest : SubmitRequest where
  tool := .name "search_splunk"
  arguments := some (.object [])
  idempotency_key := some "key"
  request_id := some "request"

/-- Nothing fails, and the transport names a job. -/
def sampleAnswers : ∀ q : Ask, q.Answer
  | .now => (0 : Int)
  | .is_cancelled | .commit_lost => false
  | .ledger_fails => none
  | .invoke _ => ()
  | .respond => .ok (.object [("job_id", .string "job")])

/-- The second worker moves between the reservation and the submit of the first. -/
def contestedKey : List (Pool.Turn ledgerSignature (Except McpFault Unit × Unit)) :=
  List.replicate 2 (.start (MCPConnector.call (sampleConnector.submit sampleRequest))) ++
  List.replicate 3 (.step 0 sampleAnswers) ++ List.replicate 3 (.step 1 sampleAnswers) ++
  List.replicate 3 (.step 0 sampleAnswers) ++ List.replicate 20 (.step 1 sampleAnswers) ++
  List.replicate 20 (.step 0 sampleAnswers)

theorem contestedKey_run : Pool.Run MCPConnector.Calls [] (Pool.exec contestedKey []).1 (Pool.exec contestedKey []).2 := by
  refine Pool.exec_run contestedKey fun t ht p hp => ?_
  simp only [contestedKey, List.mem_append, List.mem_replicate] at ht
  rcases ht with ((((ht | ht) | ht) | ht) | ht) | ht
  · obtain ⟨-, rfl⟩ := ht
    cases hp
    exact .submit sampleConnector sampleRequest
  all_goals
    obtain ⟨-, rfl⟩ := ht
    cases hp

/-- One submit is invoked, and both workers' calls carry the digest of the row. -/
theorem contested_key_submitted_once :
    (Pool.exec contestedKey []).1.past.countP (isSubmitOf ("worker", "key")) ≤ 1 ∧
      ∀ e ∈ (Pool.exec contestedKey []).1.past, ∀ call envelope, callOf e = some call →
        call.submission = some envelope → envelope.key = ("worker", "key") →
        ∃ row, (Pool.exec contestedKey []).1.now.replay ("worker", "key") = some row ∧
          row.action_digest = envelope.action_digest :=
  submitted_at_most_once contestedKey_run ("worker", "key")

example : (Pool.exec contestedKey []).1.past.countP (isSubmitOf ("worker", "key")) = 1 := by decide +kernel

end Mcp.Connector

end ThreatHunting
