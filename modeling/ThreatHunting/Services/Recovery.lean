import ThreatHunting.Services.Transitions

/-!
# ThreatHunting.Services.Recovery

Attempts at one hunt's job, one after the other: each is abandoned at an arbitrary point,
where its worker crashed or lost the lease, and the next one resumes from the checkpoint.
In between, the queue may change in any way and the analyst may cancel the hunt.

The model calls of all attempts together stay within the recorded budget as long as every
attempt that goes to work finds all earlier calls in the counters it starts from. A crash
between a call and the next checkpoint leaves that call out of them.
-/

namespace ThreatHunting

open Store Op

/-! ### What the others may do -/

/-- A transaction that is not a worker's: one that writes to no or another hunt, or a cancellation. -/
def Elsewhere (hunt_id : Uuid) (t : Transaction) : Prop :=
  t.target ≠ some hunt_id ∨ ∃ owner_id s at_, t = .update .cancel owner_id hunt_id { state := some s }
    { state := some .cancelled, updated_at_utc := at_ }

/-- The hunt keeps its results and its snapshot, and its state unless it is cancelled. -/
def Kept (hunt_id : Uuid) (s s' : Database) : Prop :=
  ∀ row', s'.hunts hunt_id = some row' → ∃ row, s.hunts hunt_id = some row ∧ row'.results = row.results ∧
    row'.discovery_snapshot = row.discovery_snapshot ∧ (row'.state = row.state ∨ row'.state = .cancelled)

theorem Kept.refl (hunt_id : Uuid) (s : Database) : Kept hunt_id s s :=
  fun row h => ⟨row, h, rfl, rfl, .inl rfl⟩

theorem Kept.trans {hunt_id : Uuid} {s₁ s₂ s₃ : Database} (h : Kept hunt_id s₁ s₂) (h' : Kept hunt_id s₂ s₃) :
    Kept hunt_id s₁ s₃ := by
  intro row₃ hrow₃
  obtain ⟨row₂, hrow₂, hr, hd, hs⟩ := h' row₃ hrow₃
  obtain ⟨row₁, hrow₁, hr', hd', hs'⟩ := h row₂ hrow₂
  refine ⟨row₁, hrow₁, hr.trans hr', hd.trans hd', ?_⟩
  rcases hs with hs | hs
  · rw [hs]
    exact hs'
  · exact .inr hs

theorem Elsewhere.kept {hunt_id : Uuid} {t : Transaction} {s s' : Database} (h : Elsewhere hunt_id t)
    (htx : t.effect s = some s') : Kept hunt_id s s' := by
  have hstep := rowStep htx hunt_id
  intro row' hrow'
  rw [hrow'] at hstep
  rcases h with hother | ⟨owner_id, st, at_, rfl⟩
  · generalize s.hunts hunt_id = r at hstep ⊢
    cases hstep with
    | same _ => exact ⟨row', rfl, rfl, rfl, .inl rfl⟩
    | insert hid => exact absurd (by simp [Transaction.target, hid]) hother
    | update _ | enqueue _ => exact absurd rfl hother
  · generalize s.hunts hunt_id = r at hstep ⊢
    cases hstep with
    | same ht => exact absurd rfl ht
    | @update _ _ _ _ row _ => exact ⟨row, rfl, by simp [Values.set], by simp [Values.set], .inr rfl⟩

/-- What holds of the hunt's row, if it is stored. -/
def Stored (hunt_id : Uuid) (P : HuntRow → Prop) (s : Database) : Prop :=
  ∀ row, s.hunts hunt_id = some row → P row

theorem Stored.kept {hunt_id : Uuid} {P : HuntRow → Prop} {s s' : Database} (h : Stored hunt_id P s)
    (hk : Kept hunt_id s s')
    (hP : ∀ row row', row'.results = row.results → row'.discovery_snapshot = row.discovery_snapshot →
      (row'.state = row.state ∨ row'.state = .cancelled) → P row → P row') : Stored hunt_id P s' := by
  intro row' hrow'
  obtain ⟨row, hrow, hr, hd, hs⟩ := hk row' hrow'
  exact hP row row' hr hd hs (h row hrow)

namespace WorkflowService

/-- The effect of a worker's write on its hunt. -/
theorem Worker.write_effect {w : Worker} {completed : Option QueryExecution} {expect : Expect}
    {values : Values} {s s' : Database}
    (htx : signature.effect (w.write completed expect values) s = some s') :
    ∃ row, s.hunts w.lease.hunt_id = some row ∧ expect.matches row = true ∧
      s'.hunts w.lease.hunt_id = some (values.set row) := by
  obtain ⟨row, hrow, hm, rfl⟩ := updateHunt_eq_some htx
  exact ⟨row, hrow, hm, by simp⟩

/-- What a worker's write establishes of its hunt's row. -/
theorem Worker.stored_write {w : Worker} {completed : Option QueryExecution} {expect : Expect}
    {values : Values} {s s' : Database} {P : HuntRow → Prop}
    (htx : signature.effect (w.write completed expect values) s = some s')
    (hP : ∀ row, s.hunts w.lease.hunt_id = some row → expect.matches row = true → P (values.set row)) :
    Stored w.lease.hunt_id P s' := by
  obtain ⟨row, hrow, hm, hset⟩ := write_effect htx
  intro row' hrow'
  obtain rfl := Option.some.inj (hset.symm.trans hrow')
  exact hP row hrow hm

/-! ### The model calls of a history -/

/-- Is the event a call of the model adapter? -/
def isModelCall : Event → Bool
  | .answered (.complete _ _) _ => true
  | _ => false

/-- How often the model adapter was called. -/
def modelCalls (past : List Event) : Nat := past.countP isModelCall

/-- The budget recorded with a hunt's plan. -/
def recordedBudget (row : HuntRow) : Option BudgetLimits :=
  (row.discovery_snapshot.bind (·.execution_config_snapshot)).map (·.payload.budget_limits)

/-- The counters stored with a hunt. -/
def storedUsage (row : HuntRow) : Option BudgetCounters := (row.results.getD {}).usage

theorem modelCalls_answer {h : History} {q : Ask} {a : q.Answer}
    (hq : ∀ contract repair, q ≠ .complete contract repair) :
    modelCalls (h.answer q a).past = modelCalls h.past := by
  have hno : isModelCall (.answered (S := signature) q a) = false := by
    cases q with
    | complete contract repair => exact absurd rfl (hq contract repair)
    | now | uuid4 | lease_signal | discover | prompt | submit | status | fetch_results | cancel_search => rfl
  show List.countP isModelCall (.answered q a :: h.past) = List.countP isModelCall h.past
  rw [List.countP_cons, hno]
  simp

theorem modelCalls_complete (h : History) (contract : Contract) (repair : Bool)
    (a : (Ask.complete contract repair).Answer) :
    modelCalls (h.answer (Ask.complete contract repair) a).past = modelCalls h.past + 1 :=
  List.countP_cons_of_pos rfl

theorem modelCalls_commit (h : History) (t : Transaction) (s : Database) :
    modelCalls (h.commit t s).past = modelCalls h.past :=
  List.countP_cons_of_neg (by simp [isModelCall])

/-- An attempt that finds the hunt QUEUED or RUNNING finds all calls made so far in the counters it
starts from. -/
def CallsCounted (hunt_id : Uuid) (h : History) : Prop :=
  Stored hunt_id (fun row => (row.state = .queued → modelCalls h.past = 0) ∧
    (row.state = .running → modelCalls h.past ≤ ((storedUsage row).getD {}).model_calls)) h.now

/-- The recorded budget has not been exceeded. -/
def WithinCalls (hunt_id : Uuid) (h : History) : Prop :=
  Stored hunt_id (fun row => ∀ limits, recordedBudget row = some limits →
    modelCalls h.past ≤ limits.max_model_calls) h.now

/-- The others keep the hunt and call no model. -/
def callRegime (hunt_id : Uuid) : Regime where
  admits _ _ := True
  inv := WithinCalls hunt_id
  rely h h' := modelCalls h'.past = modelCalls h.past ∧ Kept hunt_id h.now h'.now
  guar _ _ := True
  rely_refl h := ⟨rfl, .refl hunt_id h.now⟩
  rely_trans h h' := ⟨h'.1.trans h.1, h.2.trans h'.2⟩

/-- What an attempt knows of the stored hunt: its counters, its state and its budget. -/
def AtWork (w : Worker) (s : HuntState) (usage : Option BudgetCounters) (row : HuntRow) : Prop :=
  storedUsage row = usage ∧ (row.state = s ∨ row.state = .cancelled) ∧
    recordedBudget row = some w.service.budget_limits

/-- The assertion of an attempt: the calls so far are in its counters. -/
def callAssertion (w : Worker) (st : Stage (Option BudgetCounters)) (m : BudgetCounters) (h : History) : Prop :=
  match st with
  | .ready => CallsCounted w.lease.hunt_id h
  | .working s usage _ => modelCalls h.past ≤ m.model_calls ∧
      Stored w.lease.hunt_id (AtWork w s usage) h.now
  | .ended usage => Stored w.lease.hunt_id (fun row => storedUsage row = usage) h.now

section

variable {w : Worker}

theorem AtWork.of_kept {s : HuntState} {usage : Option BudgetCounters} {row row' : HuntRow}
    (hr : row'.results = row.results) (hd : row'.discovery_snapshot = row.discovery_snapshot)
    (hs : row'.state = row.state ∨ row'.state = .cancelled) (h : AtWork w s usage row) :
    AtWork w s usage row' := by
  obtain ⟨husage, hstate, hbudget⟩ := h
  refine ⟨by rw [storedUsage, hr]; exact husage, ?_, by rw [recordedBudget, hd]; exact hbudget⟩
  rcases hs with hs | hs
  · rw [hs]
    exact hstate
  · exact .inr hs

/-- The budget bound after events that keep the calls and the recorded budgets. -/
theorem WithinCalls.of_kept {hunt_id : Uuid} {h h' : History} (hw : WithinCalls hunt_id h)
    (hc : modelCalls h'.past = modelCalls h.past)
    (hrow : ∀ row', h'.now.hunts hunt_id = some row' → ∃ row, h.now.hunts hunt_id = some row ∧
      row'.discovery_snapshot = row.discovery_snapshot) : WithinCalls hunt_id h' := by
  intro row' hrow' limits hlimits
  obtain ⟨row, hrow₀, hd⟩ := hrow row' hrow'
  rw [hc]
  exact hw row hrow₀ limits (by rwa [recordedBudget, ← hd])

/-- The assertion survives what the others do. -/
theorem callAssertion_stable {st : Stage (Option BudgetCounters)} {m : BudgetCounters} {h h' : History}
    (hr : (callRegime w.lease.hunt_id).rely h h') (ha : callAssertion w st m h) : callAssertion w st m h' := by
  obtain ⟨hcalls, hkept⟩ := hr
  cases st with
  | ready =>
      unfold callAssertion CallsCounted at ha ⊢
      rw [hcalls]
      refine ha.kept hkept fun row row' hres _ hs h => ?_
      rcases hs with hs | hs
      · rw [hs, storedUsage, hres]
        exact h
      · simp [hs]
  | working s usage ids =>
      obtain ⟨hle, hst⟩ := ha
      exact ⟨hcalls ▸ hle, hst.kept hkept fun _ _ hres hd hs h => h.of_kept hres hd hs⟩
  | ended usage => exact Stored.kept ha hkept fun row row' hres _ _ h => by rwa [storedUsage, hres]

/-- An answer to anything but a model call keeps the assertion. -/
theorem call_answers {q : Ask} (hq : ∀ contract repair, q ≠ .complete contract repair)
    {st st' : Stage (Option BudgetCounters)} {m : BudgetCounters}
    (hst : ∀ h, callAssertion w st m h → callAssertion w st' m h) :
    (callRegime w.lease.hunt_id).Answers q (callAssertion w st m) fun _ => callAssertion w st' m := by
  intro h a hI _ ha
  have hc := modelCalls_answer (h := h) (a := a) hq
  refine ⟨WithinCalls.of_kept hI hc fun row' hrow' => ⟨row', hrow', rfl⟩, trivial, ?_⟩
  exact callAssertion_stable (h := h) ⟨hc, .refl _ _⟩ (hst h ha)

/-- A transaction that writes to no hunt keeps the assertion. -/
theorem call_commits_elsewhere {t : Transaction} (ht : t.target = none)
    {st : Stage (Option BudgetCounters)} {m : BudgetCounters} :
    (callRegime w.lease.hunt_id).Commits t (callAssertion w st m) (callAssertion w st m) := by
  intro h s hI htx _ ha
  have hkept : Kept w.lease.hunt_id h.now s := Elsewhere.kept (.inl (by simp [ht])) htx
  refine ⟨WithinCalls.of_kept hI (modelCalls_commit h t s) fun row' hrow' => ?_, trivial,
    callAssertion_stable (h := h) ⟨modelCalls_commit h t s, hkept⟩ ha⟩
  obtain ⟨row, hrow, -, hd, -⟩ := hkept row' hrow'
  exact ⟨row, hrow, hd⟩

/-- A write of the worker leads to the assertion its values establish. -/
theorem call_commits_write {completed : Option QueryExecution} {s : HuntState} {values : Values}
    (hbare : values.Bare) {st : Stage (Option BudgetCounters)} {m : BudgetCounters} {Q : History → Prop}
    (hQ : ∀ h db, callAssertion w st m h →
      signature.effect (w.write completed { state := some s } values) h.now = some db →
      Q (h.commit (w.write completed { state := some s } values) db)) :
    (callRegime w.lease.hunt_id).Commits (w.write completed { state := some s } values)
      (callAssertion w st m) Q := by
  intro h db hI htx _ ha
  refine ⟨WithinCalls.of_kept hI (modelCalls_commit h _ db) fun row' hrow' => ?_, trivial, hQ h db ha htx⟩
  obtain ⟨row, hrow, -, hset⟩ := Worker.write_effect htx
  obtain rfl := Option.some.inj (hset.symm.trans hrow')
  exact ⟨row, hrow, by simp [Values.set, hbare.2.2.1]⟩

/-- At work, a write that stores counters leads to work from those counters. -/
theorem AtWork.write {s s' : HuntState} {usage : Option BudgetCounters} {values : Values} {row : HuntRow}
    {r : Results} (h : AtWork w s usage row) (hbare : values.Bare) (hr : values.results = some r)
    (hs : (values.set row).state = s') : AtWork w s' r.usage (values.set row) := by
  obtain ⟨-, -, hbudget⟩ := h
  have hd : (values.set row).discovery_snapshot = row.discovery_snapshot := by
    simp [Values.set, hbare.2.2.1]
  exact ⟨by simp [storedUsage, Values.set, hr], .inl hs, by rwa [recordedBudget, hd]⟩

/-- An attempt that passes the binding checks runs under the recorded budget. -/
theorem recordedBudget_of_bound {row : HuntRow} {bound : Worker.Bound} (h : w.checkBindings row = .ok bound) :
    recordedBudget row = some w.service.budget_limits := by
  have hbinding := congrArg (Option.map ExecutionBinding.budget_limits) (Discipline.checkBindings_row h).2
  rw [Option.map_map] at hbinding
  exact hbinding

/-- A checkpoint of a hunt in execution. -/
theorem call_checkpoint {completed : Option QueryExecution} {s s' : HuntState} {usage : Option BudgetCounters}
    {ids ids' : List Uuid} {m : BudgetCounters} {r : Results} {values : Values} (hbare : values.Bare)
    (hr : values.results = some r) (hs : values.state.getD s = s') :
    (callRegime w.lease.hunt_id).Commits (w.write completed { state := some s } values)
      (callAssertion w (.working s usage ids) m) (callAssertion w (.working s' r.usage ids') m) := by
  refine call_commits_write hbare fun h db ⟨hle, hst⟩ htx => ⟨?_, ?_⟩
  · rw [modelCalls_commit]
    exact hle
  · refine Worker.stored_write htx fun row hrow hm => (hst row hrow).write hbare hr ?_
    simp [Values.set, Expect.state_of_matches hm rfl, hs]

/-- A last write: what remains is only to report. -/
theorem call_close {completed : Option QueryExecution} {s : HuntState} {st : Stage (Option BudgetCounters)}
    {m : BudgetCounters} {values : Values} (hbare : values.Bare)
    (hst : ∀ h, callAssertion w st m h → ∃ usage, Stored w.lease.hunt_id (storedUsage · = usage) h.now) :
    (callRegime w.lease.hunt_id).Commits (w.write completed { state := some s } values)
      (callAssertion w st m) fun h => ∃ usage, callAssertion w (.ended usage) m h := by
  refine call_commits_write hbare fun h db ha htx => ?_
  obtain ⟨usage, hu⟩ := hst h ha
  refine ⟨(values.results.map (·.usage)).getD usage, Worker.stored_write htx fun row hrow _ => ?_⟩
  cases hr : values.results with
  | none => simpa [storedUsage, Values.set, hr] using hu row hrow
  | some r => simp [storedUsage, Values.set, hr]

/-- The discipline of counted calls. -/
def callAttempt (w : Worker) : Discipline w where
  regime := callRegime w.lease.hunt_id
  Ghost := Option BudgetCounters
  View r usage := r.usage = usage
  holds := callAssertion w
  view_congr := @Results.usage_congr
  stable hr _ h := callAssertion_stable hr h
  quiet hq := call_answers (by rintro contract repair rfl; exact hq) fun _ h => h
  mint := by
    intro s usage ids m
    exact call_answers (by simp) fun _ h => h
  unmint _ h := h
  check := call_commits_elsewhere rfl
  view := by
    intro st usage m h row hst _ ha hrow
    have hstored := (owned_eq_some.mp hrow).1
    cases st with
    | ready => cases hst
    | working s usage' ids =>
        cases hst
        exact (ha.2 row hstored).1
    | ended usage' =>
        cases hst
        exact ha row hstored
  call := by
    intro s usage ids m contract repair hlt h a hI _ ⟨hle, hst⟩
    have hc := modelCalls_complete h contract repair a
    refine ⟨?_, trivial, ?_, hst⟩
    · intro row hrow limits hlimits
      obtain ⟨-, -, hbudget⟩ := hst row hrow
      obtain rfl := Option.some.inj (hlimits.symm.trans hbudget)
      rw [hc]
      exact Nat.lt_of_le_of_lt hle hlt
    · rw [hc]
      exact Nat.succ_le_succ hle
  recount hsame _ h := ⟨hsame.1 ▸ h.1, h.2⟩
  annotate := by
    intro s usage ids m r at_ _ hv
    rw [← hv]
    exact call_checkpoint ⟨rfl, rfl, rfl, rfl⟩ rfl rfl
  checkpoint := by
    intro usage m r r' entries at_ hv _ hcore h db hI htx ha hw
    obtain ⟨hI', hg, hw'⟩ := call_checkpoint ⟨rfl, rfl, rfl, rfl⟩ rfl rfl h db hI htx ha hw
    exact ⟨hI', hg, _, rfl, hw'⟩
  begin_ := by
    intro usage m r entries started at_ _ hcore h db hI htx ha hw
    obtain ⟨hI', hg, hw'⟩ := call_checkpoint ⟨rfl, rfl, rfl, rfl⟩ rfl rfl h db hI htx ha hw
    exact ⟨hI', hg, _, rfl, hw'⟩
  again := by
    intro usage ids m h r hv hr ⟨hle, hst⟩ row hrow
    obtain ⟨husage, hstate, -⟩ := hst row hrow
    refine ⟨fun hq => ?_, fun _ => ?_⟩
    · rw [hq] at hstate
      simp at hstate
    · rw [husage, ← hv, hr]
      exact hle
  rest h := fun row hrow => (h.2 row hrow).1
  finish := by
    intro usage ids m r r' at_ _ _
    exact call_close ⟨rfl, rfl, rfl, rfl⟩ fun h ha => ⟨usage, fun row hrow => (ha.2 row hrow).1⟩
  report := call_close ⟨rfl, rfl, rfl, rfl⟩ fun h ha => ⟨_, ha⟩
  fail := by
    intro usage m s r r' at_ _ _ _
    exact call_close ⟨rfl, rfl, rfl, rfl⟩ fun h ha => ⟨usage, ha⟩

theorem callAttempt_forgetful (w : Worker) : (callAttempt w).Forgetful where
  forget h := h
  arrive := by
    intro m now h s hI htx ha hready
    obtain ⟨hI', hg, hready'⟩ := (callAttempt w).check h s hI htx ha hready
    refine ⟨hI', hg, ?_⟩
    cases hrow : s.hunts w.lease.hunt_id with
    | none =>
        refine ⟨none, fun row (h : s.hunts w.lease.hunt_id = some row) => ?_⟩
        rw [hrow] at h
        cases h
    | some row =>
        refine ⟨storedUsage row, fun row' (h : s.hunts w.lease.hunt_id = some row') => ?_⟩
        rw [Option.some.inj (hrow.symm.trans h)]
  enter_queued := by
    intro m h bound usage₀ m₀ _ hready _ hrow hbound hstate
    have hstored := (owned_eq_some.mp hrow).1
    refine ⟨storedUsage bound.row, Nat.le_of_eq ((hready bound.row hstored).1 hstate), fun row' hrow' => ?_⟩
    obtain rfl := Option.some.inj (hstored.symm.trans hrow')
    exact ⟨rfl, .inl hstate, recordedBudget_of_bound hbound⟩
  enter_running := by
    intro m h bound usage₀ m₀ _ hready _ hrow hbound hstate
    have hstored := (owned_eq_some.mp hrow).1
    refine ⟨storedUsage bound.row, rfl, (hready bound.row hstored).2 hstate, fun row' hrow' => ?_⟩
    obtain rfl := Option.some.inj (hstored.symm.trans hrow')
    exact ⟨rfl, .inl hstate, recordedBudget_of_bound hbound⟩

theorem callAttempt_loose (w : Worker) : (callAttempt w).Loose where
  ask {s g ids m q} hq := by
    show (callRegime w.lease.hunt_id).Answers q (callAssertion w (.working s g ids) m)
      fun _ => callAssertion w (.working s g ids) m
    exact call_answers hq fun _ h => h
  recount hm _ h := ⟨hm ▸ h.1, h.2⟩
  store {usage ids m r at_ completed} _ := by
    intro h db hI htx ha hw
    have hw : callAssertion w (.working .running usage ids) m h := hw
    have store : (callRegime w.lease.hunt_id).Commits (w.write completed { state := some .running }
        { results := some r, updated_at_utc := at_ }) (callAssertion w (.working .running usage ids) m)
        (callAssertion w (.working .running r.usage ids) m) :=
      call_checkpoint ⟨rfl, rfl, rfl, rfl⟩ rfl rfl
    obtain ⟨hI', hg, hw'⟩ := store h db hI htx ha hw
    exact ⟨hI', hg, _, rfl, hw'⟩

end

/-! ### All attempts together -/

/-- Attempts at a hunt, by any worker in any process, started where the condition holds. -/
def Attempts (hunt_id : Uuid) (start : History → Prop) (h : History) (p : Client) : Prop :=
  ∃ (w : Worker) (fuel : Nat) (m : BudgetCounters), w.lease.hunt_id = hunt_id ∧ start h ∧
    p = w.execute_job fuel m

/-- **Durable call budget.** Whatever the crashes, recoveries and resumptions, all attempts together
make no more model calls than the budget recorded with the hunt allows, if each attempt that
goes to work finds the calls made before it counted in the checkpoint it resumes. -/
theorem model_calls_within_budget {hunt_id : Uuid} {s₀ : Database} {h : History} {p : Client}
    (run : Session.Run (Attempts hunt_id (CallsCounted hunt_id)) (Elsewhere hunt_id) s₀ h p) :
    WithinCalls hunt_id h := by
  have starts : ∀ h p, Attempts hunt_id (CallsCounted hunt_id) h p → (callRegime hunt_id).inv h →
      p.Safe (callRegime hunt_id) (fun _ _ => True) h := by
    intro h p ⟨w, fuel, m, hid, hcounted, hp⟩ _
    subst hid
    rw [hp]
    refine Program.Safe.mono (fun _ _ _ => trivial)
      (Discipline.safe_execute_job (callAttempt_forgetful w).failures (callAttempt_loose w).runsQueries fuel
        False m h hcounted (by simp))
  have others : ∀ h t s, (callRegime hunt_id).inv h → Elsewhere hunt_id t → t.effect h.now = some s →
      (callRegime hunt_id).admits h.past (.committed t h.now s) →
      (callRegime hunt_id).inv (h.commit t s) ∧ (callRegime hunt_id).rely h (h.commit t s) := by
    intro h t s hI he htx _
    have hkept := he.kept htx
    refine ⟨WithinCalls.of_kept hI (modelCalls_commit h t s) fun row' hrow' => ?_, modelCalls_commit h t s, hkept⟩
    obtain ⟨row, hrow, -, hd, -⟩ := hkept row' hrow'
    exact ⟨row, hrow, hd⟩
  have start : WithinCalls hunt_id ⟨s₀, []⟩ := fun _ _ _ _ => Nat.zero_le _
  exact (run.sound (Γ := callRegime hunt_id) (fun _ _ _ _ h => h) starts others start (.of_forall (fun _ _ => trivial) _)).1

/-! ### An attempt that crashed after its first call -/

/-- A process that allows one model call for a hunt. -/
def frugalService : Service where
  local_demo := false
  adapters_configured := true
  budget_limits := { max_model_calls := 1, positive := by decide, related := by decide }
  execution_config := "config"
  deployment_scope_id := "scope"

/-- The claimed job of a hunt that was approved under `frugalService`. -/
def frugalDatabase : Database :=
  let snapshot : DiscoverySnapshot :=
    { exampleSnapshot with execution_config_snapshot := some ⟨"c", frugalService.binding, "binding"⟩ }
  claimedDatabase
    { exampleRow .queued with approval := some exampleApproval, discovery_snapshot := some snapshot } 0

/-- A worker under a lease of that job. -/
def frugalWorker (worker_id : String) (generation : Nat) (now : Instant) : Worker where
  helpers := exampleHelpers
  service := frugalService
  investigation := exampleInvestigation
  lease := exampleLease worker_id generation now

/-- An attempt of the worker up to the answer of its first model call. -/
def firstCall (w : Worker) (now : Instant) : List (Session.Turn signature (Except Fault Unit × BudgetCounters)) :=
  .start (w.execute_job 2 {}) :: List.replicate 9 (.step (exampleAnswers now "u"))

/-- The first attempt calls the model once, as the budget allows. -/
theorem first_attempt_within_budget : ∃ h, modelCalls h.past = 1 ∧ WithinCalls "h" h := by
  let w := frugalWorker "w1" 1 0
  let h₀ : History := ⟨frugalDatabase, []⟩
  have counted : CallsCounted "h" h₀ := fun row _ => ⟨fun _ => rfl, fun _ => Nat.zero_le _⟩
  have run : Session.Run (Attempts "h" (CallsCounted "h")) (Elsewhere "h") frugalDatabase h₀
      (w.execute_job 2 {}) := .start .init ⟨w, 2, {}, rfl, counted, rfl⟩
  have steps : ∀ t ∈ (firstCall w 1000000).tail, ∀ h,
      t.Allowed (Attempts "h" (CallsCounted "h")) (Elsewhere "h") h := by
    intro t ht h
    obtain ⟨-, rfl⟩ := List.mem_replicate.mp ht
    exact trivial
  exact ⟨_, by decide, model_calls_within_budget (run.exec steps)⟩

/-- The worker crashes after its first call; the job is recovered, and the next attempt starts
from counters that know nothing of that call. -/
def recovered : List (Session.Turn signature (Except Fault Unit × BudgetCounters)) :=
  firstCall (frugalWorker "w1" 1 0) 1000000 ++
    .env (.call_jobs exampleService.jobs (.recover_expired 60000000)) ::
    .env (.call_jobs exampleService.jobs (.claim "w2" none 0 60000000)) ::
    firstCall (frugalWorker "w2" 2 60000000) 61000000

/-- The two attempts together call the model twice under a budget of one call. -/
theorem recovered_attempt_exceeds_budget :
    ∃ h p, Session.Run (Attempts "h" fun _ => True) (Elsewhere "h") frugalDatabase h p ∧
      modelCalls h.past = 2 ∧ ¬WithinCalls "h" h := by
  have first : ∀ w now, w.lease.hunt_id = "h" → ∀ t ∈ firstCall w now, ∀ h,
      t.Allowed (Attempts "h" fun _ => True) (Elsewhere "h") h := by
    intro w now hid t ht h
    rcases List.mem_cons.mp ht with rfl | ht
    · exact ⟨w, 2, {}, hid, trivial, rfl⟩
    · obtain ⟨-, rfl⟩ := List.mem_replicate.mp ht
      exact trivial
  have allowed : ∀ t ∈ recovered, ∀ h, t.Allowed (Attempts "h" fun _ => True) (Elsewhere "h") h := by
    intro t ht
    simp only [recovered, List.mem_append, List.mem_cons] at ht
    rcases ht with ht | rfl | rfl | ht
    · exact first _ _ rfl t ht
    · exact fun _ => .inl nofun
    · exact fun _ => .inl nofun
    · exact first _ _ rfl t ht
  have start : Session.Run (Attempts "h" fun _ => True) (Elsewhere "h") frugalDatabase
      ⟨frugalDatabase, []⟩ .halt := .init
  have run := start.exec allowed
  have calls : modelCalls (Session.exec recovered (⟨frugalDatabase, []⟩, .halt)).1.past = 2 := by decide
  refine ⟨_, _, run, calls, fun hw => ?_⟩
  have hle := hw _ rfl _ rfl
  rw [calls] at hle
  exact absurd hle (by decide)

end WorkflowService

end ThreatHunting
