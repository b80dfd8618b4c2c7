import ThreatHunting.Services.QueryLoop

/-!
# ThreatHunting.Services.Lawful

What each operation of the service can write. `Lawful` lists, writer by writer, every
update the operation makes: its condition, its values, and how they come from a row the
operation has read before. Every run of any number of clients and workers, interleaved in
any order, makes only such writes (`runs_lawful`); what holds of all runs is then an
induction over histories.
-/

namespace ThreatHunting

open Store Op

theorem owned_eq_some {db : Database} {owner_id : String} {hunt_id : Uuid} {row : HuntRow} :
    db.owned owner_id hunt_id = some row ↔ db.hunts hunt_id = some row ∧ row.owner_id = owner_id := by
  simp [Database.owned, Option.filter_eq_some_iff]

/-! ### Facts about the past -/

/-- The row was stored at some time. -/
def Seen (s₀ : Database) (past : List Event) (hunt_id : Uuid) (row : HuntRow) : Prop :=
  ∃ past' s, past' <:+ past ∧ Leads s₀ past' s ∧ s.hunts hunt_id = some row

/-- The worker's lease passed a check. -/
def Checked (lease : JobLease) (past : List Event) : Prop :=
  ∃ now db db', Store.Event.committed (S := signature) (Transaction.check_lease lease now) db db' ∈ past

theorem Seen.later {s₀ : Database} {past past' : List Event} {hunt_id : Uuid} {row : HuntRow}
    (h : Seen s₀ past hunt_id row) (hs : past <:+ past') : Seen s₀ past' hunt_id row := by
  obtain ⟨past₀, s, hp, hl, hrow⟩ := h
  exact ⟨past₀, s, hp.trans hs, hl, hrow⟩

theorem Checked.later {lease : JobLease} {past past' : List Event} (h : Checked lease past)
    (hs : past <:+ past') : Checked lease past' := by
  obtain ⟨now, db, db', he⟩ := h
  exact ⟨now, db, db', hs.subset he⟩

/-- The values leave the plan, its snapshot and its approval alone. -/
def Values.Bare (v : Values) : Prop :=
  v.plan = none ∧ v.plan_version = none ∧ v.discovery_snapshot = none ∧ v.approval = none

/-- A row as `create_hunt` inserts it. -/
def HuntRow.Blank (row : HuntRow) : Prop :=
  row.state = .created ∧ row.plan = none ∧ row.plan_version = none ∧ row.discovery_snapshot = none ∧
    row.approval = none ∧ row.results = none

namespace WorkflowService

/-! ### The writes of each operation -/

/-- The identities of a drafted plan are those of the hunt and of the snapshot stored with it. -/
def DraftBound (row : HuntRow) (plan : HuntPlan) (snapshot : DiscoverySnapshot) : Prop :=
  ∃ header config, plan.header = some header ∧ snapshot.execution_config_snapshot = some config ∧
    header.hunt_id = row.hunt_id ∧ header.discovery_snapshot_id = snapshot.snapshot_id ∧
    header.execution_config_snapshot_id = config.snapshot_id ∧ header.plan_version = 1

/-- The identities of an edited plan are those of the plan it replaces, but for the snapshot of
a rescoped one, which keeps the configuration. -/
def EditBound (row : HuntRow) (version : Nat) (edited : Edited) : Prop :=
  ∃ stored previous header, row.plan = some stored ∧ stored.header = some previous ∧
    edited.plan.header = some header ∧ header.plan_version = version + 1 ∧
    header.hunt_id = previous.hunt_id ∧
    header.execution_config_snapshot_id = previous.execution_config_snapshot_id ∧
    ((edited.snapshot = none ∧ header.discovery_snapshot_id = previous.discovery_snapshot_id) ∨
      ∃ snapshot original, edited.snapshot = some snapshot ∧ row.discovery_snapshot = some original ∧
        header.discovery_snapshot_id = snapshot.snapshot_id ∧
        snapshot.execution_config_snapshot = original.execution_config_snapshot)

/-- Every update an operation makes. `services` are the processes the clients run in. -/
inductive Lawful (helpers : Helpers) (services : Service → Prop) (s₀ : Database) (past : List Event) :
    Writer → Uuid → Expect → Values → Prop
  | cancel {hunt_id row at_} : Seen s₀ past hunt_id row → row.state ∉ HuntState.terminalStates →
      Lawful helpers services s₀ past .cancel hunt_id { state := some row.state }
        { state := some .cancelled, updated_at_utc := at_ }
  | discover_start {hunt_id at_} : Lawful helpers services s₀ past .discover hunt_id
      { state := some .created } { state := some .discovering, updated_at_utc := at_ }
  | discover_demo {service hunt_id snapshot plan at_} : services service → service.local_demo = true →
      Lawful helpers services s₀ past .discover hunt_id { state := some .discovering }
        { state := some .plan_draft, discovery_snapshot := some snapshot, plan := some plan
          plan_version := some 1, updated_at_utc := at_ }
  | discover_draft {row hunt_id snapshot plan at_} : Seen s₀ past hunt_id row →
      DraftBound row plan snapshot →
      Lawful helpers services s₀ past .discover hunt_id { state := some .discovering }
        { state := some .plan_draft, discovery_snapshot := some snapshot, plan := some plan
          plan_version := some 1, updated_at_utc := at_ }
  | discover_review {hunt_id at_} : Lawful helpers services s₀ past .discover hunt_id
      { state := some .plan_draft } { state := some .awaiting_plan_review, updated_at_utc := at_ }
  | discover_fail {hunt_id at_} : Lawful helpers services s₀ past .discover hunt_id
      { state := some .discovering } { state := some .failed, updated_at_utc := at_ }
  | save_plan {service hunt_id row version edited at_} : services service → Seen s₀ past hunt_id row →
      editable row.state = true → row.plan_version = some version →
      (service.local_demo = false → EditBound row version edited) →
      Lawful helpers services s₀ past .save_plan hunt_id { plan_version := some version }
        { state := some .awaiting_plan_review, plan := some edited.plan
          plan_version := some (version + 1), approval := some none
          discovery_snapshot := edited.snapshot, updated_at_utc := at_ }
  | revise_plan {hunt_id row version plan note at_} : Seen s₀ past hunt_id row →
      editable row.state = true → row.plan_version = some version → row.plan = some plan →
      Lawful helpers services s₀ past .revise_plan hunt_id { plan_version := some version }
        { state := some .awaiting_plan_review, plan := some (annotate plan note)
          plan_version := some (version + 1), approval := some none, updated_at_utc := at_ }
  | approve {hunt_id row version plan approval at_} : Seen s₀ past hunt_id row →
      row.state = .awaiting_plan_review → row.plan_version = some version → row.plan = some plan →
      approval.plan_version = some version → approval.plan_sha256 = helpers.plan_sha256 plan →
      approval.execution_config_snapshot_id =
        (row.discovery_snapshot.bind (·.execution_config_snapshot)).map (·.snapshot_id) →
      approval.execution_config_sha256 =
        (row.discovery_snapshot.bind (·.execution_config_snapshot)).map (·.sha256) →
      Lawful helpers services s₀ past .approve hunt_id
        { state := some .awaiting_plan_review, plan_version := some version }
        { state := some .approved, approval := some (some approval), updated_at_utc := at_ }
  | reject {hunt_id row version plan note at_} : Seen s₀ past hunt_id row →
      row.state = .awaiting_plan_review → row.plan_version = some version → row.plan = some plan →
      Lawful helpers services s₀ past .reject hunt_id
        { state := some .awaiting_plan_review, plan_version := some version }
        { state := some .plan_draft, plan := some (annotate plan note), approval := some none
          updated_at_utc := at_ }
  | execute {hunt_id s s' results report_id version report_state content at_} :
      (s = .approved ∧ s' = .queued) ∨ (s = .queued ∧ s' = .running) ∨ (s = .running ∧ s' = .synthesizing) ∨
        (s = .synthesizing ∧ s' = .report_draft) →
      Lawful helpers services s₀ past .execute hunt_id { state := some s }
        { state := some s', results, report_id, report_version := version, report_state
          report_content := content, updated_at_utc := at_ }
  | save_report {hunt_id version content at_} : Lawful helpers services s₀ past .save_report hunt_id
      { state := some .report_draft, report_state := some .report_draft, report_version := some version }
      { report_content := some content, report_version := some (version + 1), updated_at_utc := at_ }
  | finalize_report {hunt_id version pdf at_} : Lawful helpers services s₀ past .finalize_report hunt_id
      { state := some .report_draft, report_state := some .report_draft, report_version := some version }
      { state := some .finalized, report_state := some .finalized, report_pdf := some pdf
        updated_at_utc := at_ }
  | execute_job {lease completed s values} : Checked lease past →
      s = .queued ∨ s = .running ∨ s = .synthesizing → HuntState.Edge s (values.state.getD s) →
      values.Bare → Lawful helpers services s₀ past (.execute_job lease completed) lease.hunt_id
        { state := some s } values

/-- Every event a client makes. -/
def LawfulEvent (helpers : Helpers) (services : Service → Prop) (s₀ : Database) (past : List Event) :
    Event → Prop
  | .committed (.insert_hunt row) _ _ => row.Blank
  | .committed (.update writer _ hunt_id expect values) _ _ =>
      Lawful helpers services s₀ past writer hunt_id expect values
  | .committed (.update_and_enqueue _ _ expect values _) _ _ =>
      expect.state = some .approved ∧ values.state = some .queued ∧ values.Bare
  | _ => True

/-- Clients make only lawful writes, and may rely on the others to only add to the history. -/
def lawful (helpers : Helpers) (services : Service → Prop) (s₀ : Database) : Regime where
  admits _ _ := True
  inv h := Leads s₀ h.past h.now ∧ Admitted (LawfulEvent helpers services s₀) h.past
  rely h h' := h.past <:+ h'.past
  guar h h' := h.past <:+ h'.past
  rely_refl _ := List.suffix_refl _
  rely_trans := List.IsSuffix.trans

/-! ### Walking the analyst's operations -/

section Walk

variable {helpers : Helpers} {services : Service → Prop} {s₀ : Database} {α β : Type}
  {past : List Event}

variable (helpers services s₀) in
/-- After `past`, the procedure makes only lawful writes; what it returns satisfies `Q` with the
history at its return. -/
def Obeys (past : List Event) (p : Op α) (Q : α → List Event → Prop) : Prop :=
  ∀ m h, past <:+ h.past → p.Safe (lawful helpers services s₀) m h
    (fun a _ h' => past <:+ h'.past ∧ Q a h'.past) fun _ _ h' => past <:+ h'.past

/-- The procedure makes only lawful writes, after any history. -/
abbrev Free (helpers : Helpers) (services : Service → Prop) (s₀ : Database) (p : Op α) : Prop :=
  ∀ past, Obeys helpers services s₀ past p fun _ _ => True

namespace Obeys

variable {Q Q' : α → List Event → Prop} {R : β → List Event → Prop}

theorem pure {a : α} (hQ : ∀ past', past <:+ past' → Q a past') :
    Obeys helpers services s₀ past (Pure.pure a) Q :=
  fun _ h hs => Proc.safe_pure ⟨hs, hQ h.past hs⟩

theorem raise {e : Fault} : Obeys helpers services s₀ past (Op.raise e : Op α) Q :=
  fun _ _ hs => Proc.safe_throw hs

theorem mono {p : Op α} (hp : Obeys helpers services s₀ past p Q)
    (hQ : ∀ a past', past <:+ past' → Q a past' → Q' a past') : Obeys helpers services s₀ past p Q' :=
  fun m h hs => (hp m h hs).mono (fun a _ h' ⟨hs', hq⟩ => ⟨hs', hQ a h'.past hs' hq⟩) fun _ _ _ h => h

theorem bind {p : Op α} {f : α → Op β} (hp : Obeys helpers services s₀ past p Q)
    (hf : ∀ a past', past <:+ past' → Q a past' → Obeys helpers services s₀ past' (f a) R) :
    Obeys helpers services s₀ past (p >>= f) R := by
  intro m h hs
  refine Proc.Safe.seq (hp m h hs) ?_
  intro a m' h' ⟨hs', hq⟩
  refine (hf a h'.past hs' hq m' h' (List.suffix_refl _)).mono ?_ ?_
  · intro b _ h'' ⟨hs'', hr⟩
    exact ⟨hs'.trans hs'', hr⟩
  · intro _ _ h'' hs''
    exact hs'.trans hs''

/-- Sequencing after a step of which only the returned value matters. -/
theorem seq {p : Op α} {f : α → Op β} {P : α → Prop} (hp : Obeys helpers services s₀ past p fun a _ => P a)
    (hf : ∀ a, P a → Obeys helpers services s₀ past (f a) R) :
    Obeys helpers services s₀ past (p >>= f) R := by
  intro m h hs
  refine Proc.Safe.seq (hp m h hs) ?_
  intro a m' h' ⟨hs', ha⟩
  exact hf a ha m' h' hs'

theorem handle {p : Op α} {handler : Fault → Op α} (hp : Obeys helpers services s₀ past p Q)
    (he : ∀ e past', past <:+ past' → Obeys helpers services s₀ past' (handler e) Q) :
    Obeys helpers services s₀ past (p.handle handler) Q := by
  intro m h hs
  refine Proc.Safe.handle (hp m h hs) ?_
  intro e m' h' hs'
  refine (he e h'.past hs' m' h' (List.suffix_refl _)).mono ?_ ?_
  · intro b _ h'' ⟨hs'', hr⟩
    exact ⟨hs'.trans hs'', hr⟩
  · intro _ _ h'' hs''
    exact hs'.trans hs''

theorem ite {c : Prop} [Decidable c] {p q : Op α} (hp : c → Obeys helpers services s₀ past p Q)
    (hq : ¬c → Obeys helpers services s₀ past q Q) :
    Obeys helpers services s₀ past (if c then p else q) Q :=
  fun m h hs => Proc.safe_ite (fun hc => hp hc m h hs) fun hc => hq hc m h hs

theorem raiseIf {c : Prop} [Decidable c] {e : Fault} :
    Obeys helpers services s₀ past (Op.raiseIf c e) fun _ _ => ¬c :=
  ite (fun _ => raise) fun hc => pure fun _ _ => hc

theorem ofExcept {x : Except Fault α} :
    Obeys helpers services s₀ past (Op.ofExcept x) fun a _ => x = .ok a := by
  cases x with
  | ok a => exact pure fun _ _ => rfl
  | error e => exact raise

theorem ofOption {x : Option α} {e : Fault} :
    Obeys helpers services s₀ past (Op.ofOption x e) fun a _ => x = some a := by
  cases x with
  | some a => exact pure fun _ _ => rfl
  | none => exact raise

theorem get : Obeys helpers services s₀ past (Proc.get : Op BudgetCounters) fun _ _ => True :=
  fun _ _ hs => Proc.safe_get ⟨hs, trivial⟩

theorem modify (f : BudgetCounters → BudgetCounters) :
    Obeys helpers services s₀ past (Proc.modify f : Op Unit) fun _ _ => True :=
  fun _ _ hs => Proc.safe_modify ⟨hs, trivial⟩

theorem ask (q : Ask) : Obeys helpers services s₀ past (Proc.ask (S := signature) q : Op _) fun _ _ => True := by
  intro m h hs
  refine Proc.safe_ask ?_
  intro h' hr ⟨hl, ha⟩ a _
  have hs' : past <:+ (h'.answer q a).past := (hs.trans hr).trans (List.suffix_cons _ _)
  exact ⟨⟨.answered hl, trivial, ha⟩, List.suffix_cons _ _, hs', trivial⟩

theorem now : Obeys helpers services s₀ past Op.now fun _ _ => True := ask .now

theorem uuid4 : Obeys helpers services s₀ past Op.uuid4 fun _ _ => True := ask .uuid4

theorem collect {f : α → Op β} (hf : ∀ a, Free helpers services s₀ (f a)) :
    ∀ as, Free helpers services s₀ (Proc.collect f as)
  | [], _ => pure fun _ _ => trivial
  | a :: as, past => (hf a past).bind fun _ _ _ _ => (collect hf as _).bind fun _ _ _ _ => pure fun _ _ => trivial

/-- A row that is read has been stored. -/
theorem owned_row (owner_id : String) (hunt_id : Uuid) :
    Obeys helpers services s₀ past (Op.owned_row owner_id hunt_id) fun row past' =>
      Seen s₀ past' hunt_id row := by
  intro m h hs
  refine Proc.Safe.bind (Proc.safe_read ?_)
  intro h' hr ⟨hl, _⟩
  cases hrow : h'.now.owned owner_id hunt_id with
  | none => exact Proc.safe_throw (hs.trans hr)
  | some row =>
      refine Proc.safe_pure ⟨hs.trans hr, h'.past, h'.now, List.suffix_refl _, hl, ?_⟩
      exact (owned_eq_some.mp hrow).1

theorem commit {t : Transaction}
    (ht : ∀ past' db db', past <:+ past' → LawfulEvent helpers services s₀ past' (.committed t db db')) :
    Obeys helpers services s₀ past (Proc.commit (S := signature) t : Op _) fun _ _ => True := by
  intro m h hs
  refine Proc.safe_commit ?_ ?_
  · intro h' hr ⟨hl, ha⟩ s htx _
    have hs' : past <:+ (h'.commit t s).past := (hs.trans hr).trans (List.suffix_cons _ _)
    exact ⟨⟨.committed hl htx, ht h'.past h'.now s (hs.trans hr), ha⟩, List.suffix_cons _ _, hs', trivial⟩
  · intro h' hr _ _
    exact ⟨hs.trans hr, trivial⟩

theorem update {writer : Writer} {owner_id : String} {hunt_id : Uuid} {expect : Expect} {values : Values}
    (hw : ∀ past', past <:+ past' → Lawful helpers services s₀ past' writer hunt_id expect values) :
    Obeys helpers services s₀ past (Op.update writer owner_id hunt_id expect values) fun _ _ => True :=
  (commit (t := .update writer owner_id hunt_id expect values) fun past' _ _ hs => hw past' hs).bind fun _ _ _ _ => raiseIf.mono fun _ _ _ _ => trivial

end Obeys

/-! #### Model calls -/

theorem free_runner_reject (e : Fault) : Free helpers services s₀ (StrictModelRunner.reject e : Op α) :=
  fun _ => (Obeys.modify _).bind fun _ _ _ _ => .raise

theorem free_call {runner : StrictModelRunner} (hc : Free helpers services s₀ runner.is_cancelled)
    (contract : Contract) (request : ModelRequest) (repair : Bool) :
    Free helpers services s₀ (runner.call contract request repair) := by
  intro past
  unfold StrictModelRunner.call
  refine (hc past).bind fun _ _ _ _ => Obeys.raiseIf.bind fun _ _ _ _ => ?_
  refine Obeys.bind (Q := fun _ _ => True) ?_ fun _ _ _ _ => Obeys.get.bind fun _ _ _ _ => ?_
  · unfold StrictModelRunner.check_deadline
    split
    · exact .pure fun _ _ => trivial
    · exact Obeys.now.bind fun _ _ _ _ => Obeys.raiseIf.mono fun _ _ _ _ => trivial
  refine Obeys.raiseIf.bind fun _ _ _ _ => Obeys.raiseIf.bind fun _ _ _ _ => ?_
  refine (Obeys.modify _).bind fun _ _ _ _ => (Obeys.modify _).bind fun _ _ _ _ => ?_
  refine Obeys.bind (Q := fun _ _ => True) (Obeys.handle ?_ fun e _ _ => free_runner_reject e _) fun response _ _ _ => ?_
  · exact (Obeys.ask _).bind fun _ _ _ _ => Obeys.ofExcept.mono fun _ _ _ _ => trivial
  refine (Obeys.modify _).bind fun _ _ _ _ => (Obeys.modify _).bind fun _ _ _ _ => ?_
  refine Obeys.bind (Q := fun _ _ => True) ?_ fun _ _ _ _ => ?_
  · unfold StrictModelRunner.check_arrival
    split
    · exact .pure fun _ _ => trivial
    · exact Obeys.now.bind fun _ _ _ _ => .ite (fun _ => free_runner_reject _ _) fun _ => .pure fun _ _ => trivial
  refine Obeys.bind (Q := fun _ _ => True) ?_ fun _ _ _ _ => ?_
  · unfold StrictModelRunner.check_finish
    split
    · exact .pure fun _ _ => trivial
    · exact free_runner_reject _ _
    · exact free_runner_reject _ _
  exact Obeys.get.bind fun _ _ _ _ => Obeys.raiseIf.bind fun _ _ _ _ => .pure fun _ _ => trivial

theorem free_prompt (runner : StrictModelRunner) (contract : Contract) :
    Free helpers services s₀ (runner.prompt contract) := by
  intro past
  unfold StrictModelRunner.prompt
  refine (Obeys.ask (.prompt contract)).bind fun _ _ _ _ => Obeys.ofExcept.bind fun _ _ _ _ => ?_
  refine Obeys.bind (Q := fun _ _ => True) ?_ fun _ _ _ _ => .pure fun _ _ => trivial
  exact Obeys.get.bind fun _ _ _ _ => Obeys.raiseIf.mono fun _ _ _ _ => trivial

theorem free_run {runner : StrictModelRunner} (hc : Free helpers services s₀ runner.is_cancelled)
    (contract : Contract) : Free helpers services s₀ (runner.run contract) := by
  intro past
  unfold StrictModelRunner.run
  refine (free_prompt runner contract past).bind fun _ _ _ _ => ?_
  refine (free_call hc contract _ false _).bind fun first _ _ _ => ?_
  cases first with
  | ok value => exact (Obeys.modify _).bind fun _ _ _ _ => .pure fun _ _ => trivial
  | error reason =>
      refine (Obeys.modify _).bind fun _ _ _ _ => (free_prompt runner contract _).bind fun _ _ _ _ => ?_
      refine (free_call hc contract _ true _).bind fun second _ _ _ => ?_
      cases second with
      | ok value => exact (Obeys.modify _).bind fun _ _ _ _ => .pure fun _ _ => trivial
      | error reason => exact (Obeys.modify _).bind fun _ _ _ _ => .raise

/-! #### The operations -/

variable {service : Service} (owner_id : String) (hunt_id : Uuid)

theorem free_create_hunt (title hypothesis objective intelligence data : String) :
    Free helpers services s₀ (create_hunt owner_id title hypothesis objective intelligence data) := by
  intro past
  unfold create_hunt
  refine Obeys.raiseIf.seq fun _ _ => Obeys.raiseIf.seq fun _ _ => Obeys.now.seq fun now _ => ?_
  refine Obeys.uuid4.seq fun new_id _ => Obeys.seq (Obeys.commit ?_) fun _ _ => ?_
  · exact fun _ _ _ _ => ⟨rfl, rfl, rfl, rfl, rfl, rfl⟩
  · exact Obeys.raiseIf.mono fun _ _ _ _ => trivial

theorem free_cancel : Free helpers services s₀ (cancel service owner_id hunt_id) := by
  intro past
  unfold cancel
  refine (Obeys.owned_row owner_id hunt_id).bind fun row past₁ _ hseen => ?_
  refine .ite (fun _ => .pure fun _ _ => trivial) fun hcancelled => ?_
  refine Obeys.raiseIf.seq fun _ hterminal => Obeys.now.seq fun updated _ => ?_
  have hrow : row.state ∉ HuntState.terminalStates := by
    simp only [HuntState.terminalStates, List.mem_cons, List.not_mem_nil, or_false]
    tauto
  refine Obeys.seq (Obeys.update fun past' hs => .cancel (hseen.later hs) hrow) fun _ _ => ?_
  refine .ite (fun _ => .pure fun _ _ => trivial) fun _ => Obeys.now.seq fun now _ => ?_
  refine Obeys.seq (Obeys.commit ?_) fun _ _ => .pure fun _ _ => trivial
  exact fun _ _ _ _ => trivial

theorem free_discover_demo (hs : services service) (hdemo : service.local_demo = true) :
    Free helpers services s₀ (discover_demo owner_id hunt_id) := by
  intro past
  unfold discover_demo
  refine (Obeys.owned_row owner_id hunt_id).bind fun row past₁ _ hseen => Obeys.raiseIf.seq fun _ _ => ?_
  refine Obeys.now.seq fun now _ => Obeys.uuid4.seq fun snapshot_id _ => ?_
  refine (Obeys.update fun _ _ => .discover_start).seq fun _ _ => ?_
  refine (Obeys.update fun _ _ => .discover_demo hs hdemo).seq fun _ _ => ?_
  exact Obeys.update fun _ _ => .discover_review

theorem obeys_orchestrator_discover (plan : Option (HuntPlan × PlanHeader)) :
    Free helpers services s₀ (orchestrator_discover plan) := by
  intro past
  unfold orchestrator_discover
  refine (Obeys.ask (.discover _)).seq fun _ _ => Obeys.ofExcept.seq fun discovery _ => ?_
  exact Obeys.uuid4.seq fun snapshot_id _ => .pure fun _ _ => trivial

/-- A drafted plan has the header it comes with. -/
theorem obeys_draft_plan (sources : List String) :
    Obeys helpers services s₀ past (draft_plan service sources) fun x _ => x.1.header = some x.2 := by
  unfold draft_plan
  refine Obeys.seq (free_run (fun _ => .pure fun _ _ => trivial) (.hunt_plan sources) past) fun plan _ => ?_
  exact Obeys.ofExcept.seq fun header hheader => .pure fun _ _ => HuntPlan.model_validate_eq_ok hheader

theorem checkDraft_ok {ids : AssignedIds} {discovery : SplunkDiscovery}
    {required : Option (HuntScope × List (String × String))} {plan : HuntPlan} {header : PlanHeader}
    (h : checkDraft ids discovery required plan header = .ok ()) :
    header.hunt_id = ids.hunt_id ∧ header.discovery_snapshot_id = ids.snapshot_id ∧
      header.execution_config_snapshot_id = ids.config_id ∧ header.plan_version = 1 := by
  unfold checkDraft at h
  split at h
  · cases h
  next hids =>
    split at h
    · cases h
    next hversion =>
      simp only [ne_eq, not_or, not_not] at hids hversion
      exact ⟨hids.2.1, hids.2.2.1, hids.2.2.2, hversion⟩

/-- What the drafting loop leaves has the identities the application assigned. -/
def DraftedFor (ids : AssignedIds) (drafted : Drafted) : Prop :=
  drafted.plan.header = some drafted.header ∧ drafted.header.hunt_id = ids.hunt_id ∧
    drafted.header.discovery_snapshot_id = drafted.snapshot.snapshot_id ∧
    drafted.header.execution_config_snapshot_id = ids.config_id ∧ drafted.header.plan_version = 1

theorem obeys_draftRounds (ids : AssignedIds) (sources : List String) (discovery : SplunkDiscovery) :
    Obeys helpers services s₀ past (draftRounds service ids sources discovery)
      fun drafted _ => DraftedFor ids drafted := by
  unfold draftRounds
  refine (obeys_draft_plan sources).seq fun (plan, header) hheader => ?_
  refine Obeys.ofExcept.seq fun _ hcheck => ?_
  refine (obeys_orchestrator_discover (some (plan, header)) past).seq fun (discovery', snapshot) _ => ?_
  obtain ⟨hhunt, _, hconfig, hversion⟩ := checkDraft_ok hcheck
  refine .ite (fun _ => .pure fun _ _ => ⟨rfl, hhunt, rfl, hconfig, hversion⟩) fun _ => ?_
  refine (obeys_draft_plan sources).seq fun (plan', header') hheader' => ?_
  refine Obeys.ofExcept.seq fun _ hcheck' => .pure fun _ _ => ?_
  obtain ⟨hhunt', hsnapshot', hconfig', hversion'⟩ := checkDraft_ok hcheck'
  exact ⟨hheader', hhunt', hsnapshot', hconfig', hversion'⟩

theorem obeys_draft {row : HuntRow} (hseen : Seen s₀ past hunt_id row) (started : Instant) :
    Obeys helpers services s₀ past (draft helpers service owner_id hunt_id row started) fun _ _ => True := by
  unfold draft
  refine (obeys_orchestrator_discover none past).seq fun (discovery, snapshot) _ => ?_
  refine Obeys.uuid4.seq fun config_id _ => Obeys.now.seq fun _ _ => Obeys.uuid4.seq fun plan_id _ => ?_
  refine Obeys.seq (obeys_draftRounds _ _ discovery) fun drafted hdrafted => ?_
  refine Obeys.ofExcept.seq fun plan hplan => ?_
  obtain ⟨hheader, hhunt, hsnapshot, hconfig, hversion⟩ := hdrafted
  refine Obeys.seq (Obeys.update fun past' hs => .discover_draft (hseen.later hs) ?_) fun _ _ => ?_
  · rw [validate_plan_eq_ok hplan]
    exact ⟨drafted.header, _, hheader, rfl, hhunt, hsnapshot, hconfig, hversion⟩
  · exact Obeys.now.seq fun updated _ => Obeys.update fun _ _ => .discover_review

theorem free_discoveryFailed (e : Fault) :
    Free helpers services s₀ (discoveryFailed owner_id hunt_id e) := by
  intro past
  unfold discoveryFailed
  refine .ite (fun _ => ?_) fun _ => .raise
  refine Obeys.now.seq fun updated _ => Obeys.seq (P := fun _ => True) (Obeys.handle ?_ ?_) fun _ _ => ?_
  · exact Obeys.update fun _ _ => .discover_fail
  · intro e' past' _
    split
    · exact .pure fun _ _ => trivial
    · exact .raise
  · split
    · exact .raise
    · exact .raise

theorem free_discover (hs : services service) :
    Free helpers services s₀ (discover helpers service owner_id hunt_id) := by
  intro past
  unfold discover
  refine .ite (fun hdemo => free_discover_demo owner_id hunt_id hs hdemo past) fun _ => ?_
  refine Obeys.raiseIf.seq fun _ _ => (Obeys.owned_row owner_id hunt_id).bind fun row past₁ _ hseen => ?_
  refine Obeys.raiseIf.seq fun _ _ => Obeys.now.seq fun started _ => ?_
  refine (Obeys.update fun _ _ => .discover_start).bind fun _ past₂ hs₂ _ => Obeys.handle ?_ ?_
  · exact obeys_draft owner_id hunt_id (hseen.later hs₂) started
  · exact fun e past' _ => free_discoveryFailed owner_id hunt_id e past'

theorem obeys_editProduction (row : HuntRow) (version : Nat) (plan : HuntPlan) :
    Obeys helpers services s₀ past (editProduction service row version plan)
      fun edited _ => EditBound row version edited := by
  unfold editProduction
  refine Obeys.ofOption.seq fun stored hstored => Obeys.ofExcept.seq fun previous hprevious => ?_
  have hprevious := HuntPlan.model_validate_eq_ok hprevious
  refine Obeys.seq (P := fun _ => True) (Obeys.handle (Obeys.ofExcept.mono fun _ _ _ _ => trivial)
    fun _ _ _ => .raise) fun revised _ => ?_
  refine Obeys.raiseIf.seq fun _ _ => Obeys.raiseIf.seq fun _ hids => Obeys.raiseIf.seq fun _ _ => ?_
  simp only [ne_eq, not_or, not_not] at hids
  obtain ⟨hhunt, _, hsnapshot, hconfig⟩ := hids
  refine .ite (fun _ => ?_) fun _ => .pure fun _ _ => ?_
  · refine Obeys.raiseIf.seq fun _ _ => Obeys.ofOption.seq fun original horiginal => ?_
    refine Obeys.raiseIf.seq fun _ _ => Obeys.seq (P := fun _ => True) (Obeys.handle ?_ ?_) fun (discovery, snapshot) _ => ?_
    · exact obeys_orchestrator_discover _ past
    · intro e past' _
      split
      · exact .raise
      · exact .raise
    · refine .pure fun _ _ => ⟨stored, previous, _, hstored, hprevious, rfl, rfl, hhunt, hconfig, .inr ?_⟩
      exact ⟨_, original, rfl, horiginal, rfl, rfl⟩
  · exact ⟨stored, previous, _, hstored, hprevious, rfl, rfl, hhunt, hconfig, .inl ⟨rfl, hsnapshot⟩⟩

theorem free_save_plan (hs : services service) (version : Nat) (plan : HuntPlan) :
    Free helpers services s₀ (save_plan service owner_id hunt_id version plan) := by
  intro past
  unfold save_plan
  refine (Obeys.owned_row owner_id hunt_id).bind fun row past₁ _ hseen => Obeys.raiseIf.seq fun _ hstate => ?_
  refine Obeys.raiseIf.seq fun _ hversion => Obeys.ofExcept.seq fun normalized _ => ?_
  refine Obeys.seq (P := fun edited => service.local_demo = false → EditBound row version edited) ?_ fun edited hedit => ?_
  · refine .ite (fun hdemo => .pure fun _ _ hprod => ?_) fun _ => ?_
    · rw [hdemo] at hprod
      cases hprod
    · exact (obeys_editProduction row version normalized).mono fun _ _ _ h _ => h
  · refine Obeys.now.seq fun updated _ => Obeys.update fun past' hs' => ?_
    exact .save_plan hs (hseen.later hs') (by simpa using hstate) (by simpa using hversion) hedit

theorem free_revise_plan (instruction : String) :
    Free helpers services s₀ (revise_plan owner_id hunt_id instruction) := by
  intro past
  unfold revise_plan
  refine (Obeys.owned_row owner_id hunt_id).bind fun row past₁ _ hseen => Obeys.raiseIf.seq fun _ hstate => ?_
  refine Obeys.ofOption.seq fun plan hplan => Obeys.ofOption.seq fun version hversion => ?_
  refine Obeys.now.seq fun updated _ => Obeys.update fun past' hs' => ?_
  exact .revise_plan (hseen.later hs') (by simpa using hstate) hversion hplan

theorem free_approve (note : Option String) :
    Free helpers services s₀ (approve helpers service owner_id hunt_id note) := by
  intro past
  unfold approve
  refine (Obeys.owned_row owner_id hunt_id).bind fun row past₁ _ hseen => Obeys.raiseIf.seq fun _ hstate => ?_
  refine Obeys.ofOption.seq fun plan hplan => Obeys.ofExcept.seq fun _ _ => Obeys.raiseIf.seq fun _ _ => ?_
  have approved (analyst_note : String) : Obeys helpers services s₀ past₁ (do
      let approval_id ← Op.uuid4
      let approved_at ← Op.now
      let config := row.discovery_snapshot.bind (·.execution_config_snapshot)
      let approval : Approval := {
        approval_id, plan_version := row.plan_version, plan_sha256 := helpers.plan_sha256 plan
        approved_by_user_id := owner_id, approved_at_utc := approved_at, analyst_note
        execution_config_snapshot_id := config.map (·.snapshot_id)
        execution_config_sha256 := config.map (·.sha256) }
      let version ← Op.ofOption row.plan_version (.value_error "plan_version")
      let updated ← Op.now
      Op.update .approve owner_id hunt_id
        { state := some .awaiting_plan_review, plan_version := some version }
        { state := some .approved, approval := some (some approval), updated_at_utc := updated })
      fun _ _ => True := by
    refine Obeys.uuid4.seq fun approval_id _ => Obeys.now.seq fun approved_at _ => ?_
    refine Obeys.ofOption.seq fun version hversion => Obeys.now.seq fun updated _ => Obeys.update fun past' hs' => ?_
    exact .approve (hseen.later hs') (by simpa using hstate) hversion hplan hversion rfl rfl rfl
  exact .ite (fun _ => approved _) fun _ => Obeys.ofExcept.seq fun _ _ => approved _

theorem free_reject (note : String) : Free helpers services s₀ (reject owner_id hunt_id note) := by
  intro past
  unfold reject
  refine (Obeys.owned_row owner_id hunt_id).bind fun row past₁ _ hseen => Obeys.raiseIf.seq fun _ hstate => ?_
  refine Obeys.ofOption.seq fun plan hplan => Obeys.ofOption.seq fun version hversion => ?_
  refine Obeys.now.seq fun updated _ => Obeys.update fun past' hs' => ?_
  exact .reject (hseen.later hs') (by simpa using hstate) hversion hplan

theorem free_execute_demo (row : HuntRow) :
    Free helpers services s₀ (execute_demo helpers owner_id hunt_id row) := by
  intro past
  unfold execute_demo
  refine Obeys.now.seq fun now _ => (Obeys.collect (fun _ _ => .uuid4) _ past).seq fun ids _ => ?_
  refine (Obeys.update fun _ _ => .execute (.inl ⟨rfl, rfl⟩)).seq fun _ _ => ?_
  refine (Obeys.update fun _ _ => .execute (.inr (.inl ⟨rfl, rfl⟩))).seq fun _ _ => ?_
  refine (Obeys.update fun _ _ => .execute (.inr (.inr (.inl ⟨rfl, rfl⟩)))).seq fun _ _ => ?_
  exact Obeys.uuid4.seq fun _ _ => Obeys.update fun _ _ => .execute (.inr (.inr (.inr ⟨rfl, rfl⟩)))

theorem free_execute : Free helpers services s₀ (execute helpers service owner_id hunt_id) := by
  intro past
  unfold execute
  refine (Obeys.owned_row owner_id hunt_id).bind fun row past₁ _ hseen => Obeys.ofExcept.seq fun approval _ => ?_
  refine Obeys.ofOption.seq fun plan _ => Obeys.ofExcept.seq fun _ _ => ?_
  refine .ite (fun _ => free_execute_demo owner_id hunt_id row past₁) fun _ => ?_
  unfold execute_production
  refine Obeys.raiseIf.seq fun _ _ => Obeys.ofExcept.seq fun config _ => Obeys.ofExcept.seq fun _ _ => ?_
  refine Obeys.now.seq fun updated _ => Obeys.ofOption.seq fun version _ => ?_
  refine Obeys.uuid4.seq fun job_id _ => Obeys.now.seq fun enqueued _ => ?_
  refine Obeys.seq (Obeys.commit fun _ _ _ _ => ⟨rfl, rfl, rfl, rfl, rfl, rfl⟩) fun (seen, accepted) _ => ?_
  refine .ite (fun _ => .pure fun _ _ => trivial) fun _ => .ite (fun _ => .raise) fun _ => .raise

theorem free_save_report (version : Nat) (content : ReportContent) :
    Free helpers services s₀ (save_report helpers owner_id hunt_id version content) := by
  intro past
  unfold save_report
  refine (Obeys.owned_row owner_id hunt_id).bind fun row past₁ _ hseen => Obeys.raiseIf.seq fun _ _ => ?_
  refine Obeys.raiseIf.seq fun _ _ => Obeys.raiseIf.seq fun _ _ => Obeys.ofExcept.seq fun normalized _ => ?_
  exact Obeys.now.seq fun updated _ => Obeys.update fun _ _ => .save_report

theorem free_finalize_report (version : Nat) :
    Free helpers services s₀ (finalize_report helpers owner_id hunt_id version) := by
  intro past
  unfold finalize_report
  refine (Obeys.owned_row owner_id hunt_id).bind fun row past₁ _ hseen => Obeys.raiseIf.seq fun _ _ => ?_
  refine Obeys.ofOption.seq fun stored _ => Obeys.ofExcept.seq fun content _ => ?_
  exact Obeys.now.seq fun updated _ => Obeys.update fun _ _ => .finalize_report

end Walk

/-! ### The worker's attempts -/

section Attempt

variable {helpers : Helpers} {services : Service → Prop} {s₀ : Database}

/-- An answer keeps what later histories keep. -/
theorem lawful_answers (q : Ask) {P : List Event → Prop}
    (hP : ∀ {past past'}, P past → past <:+ past' → P past') :
    (lawful helpers services s₀).Answers q (fun h => P h.past) fun _ h => P h.past :=
  fun _ _ ⟨hl, ha⟩ _ hp =>
    ⟨⟨.answered hl, trivial, ha⟩, List.suffix_cons _ _, hP hp (List.suffix_cons _ _)⟩

theorem lawful_commits {t : Transaction} {P : List Event → Prop}
    (hP : ∀ {past past'}, P past → past <:+ past' → P past')
    (ht : ∀ past db db', P past → LawfulEvent helpers services s₀ past (.committed t db db')) :
    (lawful helpers services s₀).Commits t (fun h => P h.past) fun h => P h.past :=
  fun h s ⟨hl, ha⟩ htx _ hp =>
    ⟨⟨.committed hl htx, ht h.past h.now s hp, ha⟩, List.suffix_cons _ _, hP hp (List.suffix_cons _ _)⟩

/-- The assertion of an attempt: once it has started, its lease passed a check. -/
def CheckedFrom (lease : JobLease) (st : Stage Unit) (past : List Event) : Prop :=
  st = .ready ∨ Checked lease past

theorem CheckedFrom.later {lease : JobLease} {st : Stage Unit} {past past' : List Event}
    (h : CheckedFrom lease st past) (hs : past <:+ past') : CheckedFrom lease st past' :=
  h.imp id fun hc => hc.later hs

/-- A worker's write is lawful once its lease passed a check. -/
theorem lawful_write {w : Worker} {completed : Option QueryExecution} {s : HuntState} {values : Values}
    {h : History} {db : Database} (hI : (lawful helpers services s₀).inv h)
    (htx : signature.effect (w.write completed { state := some s } values) h.now = some db)
    (hc : Checked w.lease h.past) (hs : s = .queued ∨ s = .running ∨ s = .synthesizing)
    (he : HuntState.Edge s (values.state.getD s)) (hv : values.Bare) :
    (lawful helpers services s₀).inv (h.commit (w.write completed { state := some s } values) db) ∧
      (lawful helpers services s₀).guar h (h.commit (w.write completed { state := some s } values) db) ∧
      Checked w.lease (h.commit (w.write completed { state := some s } values) db).past :=
  lawful_commits (t := w.write completed { state := some s } values) Checked.later
    (fun _ _ _ hc => Lawful.execute_job hc hs he hv) h db hI htx trivial hc

variable (helpers services s₀) in
/-- The discipline of lawful writes. -/
def lawfulAttempt (w : Worker) : Discipline w where
  regime := lawful helpers services s₀
  Ghost := Unit
  View _ _ := True
  holds st _ h := CheckedFrom w.lease st h.past
  view_congr _ h := h
  stable hr _ h := h.later hr
  quiet {_ _ q} _ := lawful_answers q .later
  mint {_ _ _ _} := by
    intro h a hI ha hc
    obtain ⟨hI', hg, hc'⟩ := lawful_answers .uuid4 .later h a hI ha hc
    exact ⟨hI', hg, .inr (hc'.resolve_left (by simp))⟩
  unmint _ h := .inr (h.resolve_left (by simp))
  check := lawful_commits .later fun _ _ _ _ => by trivial
  view _ _ _ _ := trivial
  call {_ _ _ _ contract repair} _ := lawful_answers (.complete contract repair) .later
  recount _ _ h := h
  annotate hs _ := by
    intro h db hI htx ha hc
    obtain ⟨hI', hg, hc'⟩ := lawful_write hI htx (hc.resolve_left (by simp)) (hs.imp id .inl) (.inl rfl)
      ⟨rfl, rfl, rfl, rfl⟩
    exact ⟨hI', hg, .inr hc'⟩
  checkpoint _ _ _ := by
    intro h db hI htx ha hc
    obtain ⟨hI', hg, hc'⟩ := lawful_write hI htx (hc.resolve_left (by simp)) (.inr (.inl rfl)) (.inl rfl)
      ⟨rfl, rfl, rfl, rfl⟩
    exact ⟨hI', hg, (), trivial, .inr hc'⟩
  begin_ _ _ := by
    intro h db hI htx ha hc
    obtain ⟨hI', hg, hc'⟩ := lawful_write hI htx (hc.resolve_left (by simp)) (.inl rfl) (show HuntState.Edge .queued .running by decide)
      ⟨rfl, rfl, rfl, rfl⟩
    exact ⟨hI', hg, (), trivial, .inr hc'⟩
  again _ _ _ := .inl rfl
  rest h := .inr (h.resolve_left (by simp))
  finish _ _ := by
    intro h db hI htx ha hc
    obtain ⟨hI', hg, hc'⟩ := lawful_write hI htx (hc.resolve_left (by simp)) (.inr (.inl rfl))
      (show HuntState.Edge .running .synthesizing by decide)
      ⟨rfl, rfl, rfl, rfl⟩
    exact ⟨hI', hg, (), .inr hc'⟩
  report {_ _ _ _ _} := by
    intro h db hI htx ha hc
    obtain ⟨hI', hg, hc'⟩ := lawful_write hI htx (hc.resolve_left (by simp)) (.inr (.inr rfl))
      (show HuntState.Edge .synthesizing .report_draft by decide)
      ⟨rfl, rfl, rfl, rfl⟩
    exact ⟨hI', hg, (), .inr hc'⟩
  fail {_ _ s _ _ _} hs _ _ := by
    intro h db hI htx ha hc
    have hedge : HuntState.Edge s .failed := by
      rcases hs with rfl | rfl | rfl <;> decide
    obtain ⟨hI', hg, hc'⟩ := lawful_write hI htx (hc.resolve_left (by simp)) hs hedge
      ⟨rfl, rfl, rfl, rfl⟩
    exact ⟨hI', hg, (), .inr hc'⟩

theorem lawfulAttempt_loose (w : Worker) : (lawfulAttempt helpers services s₀ w).Loose where
  ask {_ _ _ _ q} _ := lawful_answers (P := CheckedFrom w.lease (.working _ _ _)) q .later
  recount _ _ h := h
  store _ := by
    intro h db hI htx ha hc
    obtain ⟨hI', hg, hc'⟩ := lawful_write hI htx (hc.resolve_left (by simp)) (.inr (.inl rfl)) (.inl rfl)
      ⟨rfl, rfl, rfl, rfl⟩
    exact ⟨hI', hg, (), trivial, .inr hc'⟩

theorem lawfulAttempt_forgetful (w : Worker) : (lawfulAttempt helpers services s₀ w).Forgetful where
  forget h := h
  arrive {m now} := by
    intro h s hI htx ha hc
    obtain ⟨hI', hg, _⟩ := (lawfulAttempt helpers services s₀ w).check h s hI htx ha hc
    exact ⟨hI', hg, (), .inr ⟨now, h.now, s, List.mem_cons_self⟩⟩
  enter_queued _ _ hended _ _ _ := ⟨(), .inr (hended.resolve_left (by simp))⟩
  enter_running _ _ hended _ _ _ := ⟨(), trivial, .inr (hended.resolve_left (by simp))⟩

/-- A worker's attempt makes only lawful writes. -/
theorem safe_execute_job (w : Worker) (fuel : Nat) (m : BudgetCounters) (h : History) :
    (w.execute_job fuel).Safe (lawful helpers services s₀) m h (fun _ _ _ => True) fun _ _ _ => True :=
  (Discipline.safe_execute_job (lawfulAttempt_forgetful w).failures (lawfulAttempt_loose w).runsQueries fuel
    False m h (.inl rfl) (by simp)).mono (fun _ _ _ h => h) fun _ _ _ _ => trivial

end Attempt

/-! ### Clients -/

/-- What the clients of the service run. -/
inductive Operation
  | create_hunt (owner_id title hypothesis objective intelligence data : String)
  | cancel (owner_id : String) (hunt_id : Uuid)
  | discover (owner_id : String) (hunt_id : Uuid)
  | save_plan (owner_id : String) (hunt_id : Uuid) (version : Nat) (plan : HuntPlan)
  | revise_plan (owner_id : String) (hunt_id : Uuid) (instruction : String)
  | approve (owner_id : String) (hunt_id : Uuid) (note : Option String)
  | reject (owner_id : String) (hunt_id : Uuid) (note : String)
  | execute (owner_id : String) (hunt_id : Uuid)
  | save_report (owner_id : String) (hunt_id : Uuid) (version : Nat) (content : ReportContent)
  | finalize_report (owner_id : String) (hunt_id : Uuid) (version : Nat)
  | execute_job (investigation : Investigation) (lease : JobLease) (fuel : Nat)
  | call_jobs (svc : JobService) (call : JobCall)

/-- The procedure of an operation in one process of the service. -/
def Operation.run (helpers : Helpers) (service : Service) : Operation → Op Unit
  | .create_hunt owner_id title hypothesis objective intelligence data =>
      WorkflowService.create_hunt owner_id title hypothesis objective intelligence data
  | .cancel owner_id hunt_id => WorkflowService.cancel service owner_id hunt_id
  | .discover owner_id hunt_id => WorkflowService.discover helpers service owner_id hunt_id
  | .save_plan owner_id hunt_id version plan =>
      WorkflowService.save_plan service owner_id hunt_id version plan
  | .revise_plan owner_id hunt_id instruction => WorkflowService.revise_plan owner_id hunt_id instruction
  | .approve owner_id hunt_id note => WorkflowService.approve helpers service owner_id hunt_id note
  | .reject owner_id hunt_id note => WorkflowService.reject owner_id hunt_id note
  | .execute owner_id hunt_id => WorkflowService.execute helpers service owner_id hunt_id
  | .save_report owner_id hunt_id version content =>
      WorkflowService.save_report helpers owner_id hunt_id version content
  | .finalize_report owner_id hunt_id version =>
      WorkflowService.finalize_report helpers owner_id hunt_id version
  | .execute_job investigation lease fuel => Worker.execute_job ⟨helpers, investigation, service, lease⟩ fuel
  | .call_jobs svc call => do
      let _ ← Proc.commit (S := signature) (.call_jobs svc call)
      pure ()

/-- Clients run operations in processes of the service. -/
def Clients (helpers : Helpers) (services : Service → Prop) (p : Client) : Prop :=
  ∃ service operation counters, services service ∧ p = Operation.run helpers service operation counters

section Clients

variable {helpers : Helpers} {services : Service → Prop} {s₀ : Database}

/-- Every operation makes only lawful writes. -/
theorem Operation.safe_run {service : Service} (hs : services service) (operation : Operation)
    (m : BudgetCounters) (h : History) :
    (Operation.run helpers service operation).Safe (lawful helpers services s₀) m h (fun _ _ _ => True)
      fun _ _ _ => True := by
  have of_free : ∀ {p : Op Unit}, Free helpers services s₀ p →
      p.Safe (lawful helpers services s₀) m h (fun _ _ _ => True) fun _ _ _ => True :=
    fun hp => (hp h.past m h (List.suffix_refl _)).mono (fun _ _ _ _ => trivial) fun _ _ _ _ => trivial
  cases operation with
  | create_hunt => exact of_free (free_create_hunt _ _ _ _ _ _)
  | cancel => exact of_free (free_cancel _ _)
  | discover => exact of_free (free_discover _ _ hs)
  | save_plan => exact of_free (free_save_plan _ _ hs _ _)
  | revise_plan => exact of_free (free_revise_plan _ _ _)
  | approve => exact of_free (free_approve _ _ _)
  | reject => exact of_free (free_reject _ _ _)
  | execute => exact of_free (free_execute _ _)
  | save_report => exact of_free (free_save_report _ _ _ _)
  | finalize_report => exact of_free (free_finalize_report _ _ _)
  | execute_job => exact safe_execute_job _ _ m h
  | call_jobs =>
      refine of_free fun past => Obeys.seq (Obeys.commit ?_) fun _ _ => .pure fun _ _ => trivial
      exact fun _ _ _ _ => trivial

/-- **All writes are lawful.** In every run of any number of clients, interleaved in any order,
every event is one the operations are listed with. -/
theorem runs_lawful {h : History} {ps : List Client} (run : Pool.Run (Clients helpers services) s₀ h ps) :
    Leads s₀ h.past h.now ∧ Admitted (LawfulEvent helpers services s₀) h.past := by
  have starts : ∀ p, Clients helpers services p → ∀ h, (lawful helpers services s₀).inv h →
      p.Safe (lawful helpers services s₀) (fun _ _ => True) h := by
    intro p ⟨service, operation, m, hs, hp⟩ h _
    rw [hp]
    refine Program.Safe.mono (fun _ _ _ => trivial) (Operation.safe_run hs operation m h)
  exact (run.sound (Γ := lawful helpers services s₀) (fun _ _ h => h) starts ⟨.nil, trivial⟩
    (.of_forall (fun _ _ => trivial) _)).1

end Clients

/-! ### A small deployment

The data that concrete runs below share. -/

/-- Helpers that return constants, but for the digest of a plan, which is its limitations. -/
def exampleHelpers : Helpers where
  plan_sha256 plan := ";".intercalate plan.coverage_limitations
  binding_sha256 _ := "binding"
  intelligence_sources _ _ := []
  validate_report_content content _ := .ok content
  formatted_pdf _ _ := "pdf"
  demo_report_content _ _ := ⟨none, "report"⟩
  demo_results _ _ := {}

/-- A production process with the default limits. -/
def exampleService : Service where
  local_demo := false
  adapters_configured := true
  budget_limits := .default
  execution_config := "config"
  deployment_scope_id := "scope"

/-- A plan with one question. -/
def examplePlan : HuntPlan where
  header := some {
    plan_id := "p", plan_version := 1, hunt_id := "h", discovery_snapshot_id := "s"
    execution_config_snapshot_id := "c", intelligence_refs := [], data_sources := []
    created_at_utc := 0 }
  hypothesis := "hypothesis"
  objective := "objective"
  scope := { earliest_utc := 0, latest_utc := 1, indexes := ["main"], sourcetypes := ["a"] }
  questions := [⟨"q1", "question", "rationale", "gain"⟩]
  query_strategy := []
  coverage_limitations := []

/-- The snapshot the plan was drafted on. -/
def exampleSnapshot : DiscoverySnapshot where
  snapshot_id := "s"
  payload := {
    discovery := {
      indexes := ["main"], sourcetypes := ["a"], fields := ["_time"], representative_schemas := []
      coverage_limitations := [] }
    schema_requested_scope := none
    source_pairs := [] }
  execution_config_snapshot := some ⟨"c", exampleService.binding, "binding"⟩
  intelligence_sources := []
  mode := .production

/-- A hunt with the plan, in some state. -/
def exampleRow (state : HuntState) : HuntRow where
  hunt_id := "h"
  owner_id := "o"
  title := "title"
  hypothesis := "hypothesis"
  objective := "objective"
  threat_intelligence := ""
  synthetic_data := ""
  state
  plan_version := some 1
  plan := some examplePlan
  discovery_snapshot := some exampleSnapshot
  created_at_utc := 0
  updated_at_utc := 0

/-- The tables with one hunt and no job. -/
def exampleDatabase (row : HuntRow) : Database where
  hunts := Function.update (fun _ => none) "h" (some row)
  jobs := .empty

/-- An environment whose clock reads `now` and whose every new identifier is `id`; all adapters fail. -/
def exampleAnswers (now : Instant) (id : Uuid) : ∀ q : Ask, q.Answer
  | .now => now
  | .uuid4 => id
  | .lease_signal => false
  | .discover _ => .error .integrity_error
  | .prompt _ => .ok ⟨0, 0⟩
  | .complete _ _ => .error .integrity_error
  | .submit _ _ _ _ => .error .integrity_error
  | .status _ => .error .integrity_error
  | .fetch_results _ _ _ _ => .error .integrity_error
  | .cancel_search _ => ()

/-- Investigation helpers that find nothing more to do. -/
def exampleInvestigation : Investigation where
  unicode := ⟨fun _ => false, fun _ => none, fun _ => false, fun _ _ => rfl⟩
  cache_digest _ := []
  describe_row _ _ := .ok ⟨.raw_event, "main", "a", "unknown", "ref", "sha"⟩
  query_source_coverage _ := []
  constrain proposal _ _ := .ok proposal
  assessment_context _ _ _ _ _ := []
  materialize_follow_up_questions _ _ _ := .ok ([], [])
  assessment_repair_query_ids _ _ := .ok []
  balanced_evidence_sample evidence _ _ _ := evidence
  widen_follow_up_decisions decisions _ _ _ _ := decisions
  follow_up_proposal_errors _ _ _ := []
  synthesis_sample_omitted _ _ _ _ := false
  retained_synthesis_pages _ _ _ := .ok []
  materialize_question_answers _ plan _ _ := .ok ([], plan.questions.map fun q => ⟨q.question_id, "answer"⟩)
  limited_answer _ := "limited"
  execution_report_content _ _ _ := ⟨none, "report"⟩

/-- The approval of the plan of `exampleRow`. -/
def exampleApproval : Approval where
  approval_id := "a"
  plan_version := some 1
  plan_sha256 := ""
  approved_by_user_id := "o"
  approved_at_utc := 0
  analyst_note := "unknown"
  execution_config_snapshot_id := some "c"
  execution_config_sha256 := some "binding"

/-- An approved hunt in execution since the time 0, with its results so far. -/
def exampleExecution (state : HuntState) (results : Results) : HuntRow :=
  { exampleRow state with approval := some exampleApproval, results := some results }

/-- The lease a worker is given by a claim at `now`. -/
def exampleLease (worker_id : String) (generation : Nat) (now : Instant) : JobLease :=
  ⟨"j", "h", "o", "scope", worker_id, generation, now + 60000000⟩

/-- The tables with one hunt whose job `w1` claimed at `now`. -/
def claimedDatabase (row : HuntRow) (now : Instant) : Database where
  hunts := Function.update (fun _ => none) "h" (some row)
  jobs := runCalls [(exampleService.jobs, .enqueue "j" "o" "h" "k" none none 0),
    (exampleService.jobs, .claim "w1" none 0 now)] .empty

/-- An environment in which discovery finds the catalog of `exampleSnapshot` and the model drafts
`examplePlan`. -/
def reviewAnswers (id : Uuid) : ∀ q : Ask, q.Answer
  | .discover _ => .ok exampleSnapshot.payload.discovery
  | .complete (.hunt_plan _) _ => .ok {
      input_tokens := 1, output_tokens := 1, finish_reason := .complete, text_length := 1
      decoded := .ok examplePlan }
  | q => exampleAnswers 0 id q

/-- One turn of a concrete run: an operation starts, or the `i`-th running client steps. -/
inductive Move
  | start (operation : Operation)
  | step (i : Nat) (answers : ∀ q : Ask, q.Answer)

/-- The schedule of a list of moves. -/
def schedule (moves : List Move) : List (Pool.Turn signature (Except Fault Unit × BudgetCounters)) :=
  moves.map fun
    | .start operation => .start (Operation.run exampleHelpers exampleService operation {})
    | .step i answers => .step i answers

/-- The history a list of moves leads to. -/
def play (moves : List Move) (s₀ : Database) : History := (Pool.exec (schedule moves) s₀).1

/-- Moves are a run of clients. -/
theorem play_run (services : Service → Prop) (hs : services exampleService) (moves : List Move)
    (s₀ : Database) : ∃ ps, Pool.Run (Clients exampleHelpers services) s₀ (play moves s₀) ps := by
  refine ⟨_, Pool.exec_run (schedule moves) ?_⟩
  intro t ht p hp
  obtain ⟨move, _, rfl⟩ := List.mem_map.mp ht
  cases move with
  | start operation =>
      cases hp
      exact ⟨exampleService, operation, {}, hs, rfl⟩
  | step i answers => cases hp

/-- The states of a hunt before and after the latest event. -/
def lastChange (h : History) (hunt_id : Uuid) : Option (HuntState × HuntState) :=
  match h.past with
  | .committed _ before after :: _ => do
      let row ← before.hunts hunt_id
      let row' ← after.hunts hunt_id
      pure (row.state, row'.state)
  | _ => none

end WorkflowService

end ThreatHunting
