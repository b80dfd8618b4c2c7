import ThreatHunting.Services.Recovery

/-!
# ThreatHunting.Services.Usage

The counters stored with a hunt, over attempts that are abandoned and resumed. Every attempt
starts from fresh counters and reloads the stored ones only where it resumes a RUNNING hunt;
its error handler stores whatever it has in memory. So the stored counters never go down,
except where the handler runs on counters that were not reloaded.
-/

namespace ThreatHunting

open Store Op

namespace WorkflowService

/-! ### What is stored, and when a lease has lapsed -/

/-- Counters that were stored stay stored, and none gets smaller. -/
def KeepsUsage (hunt_id : Uuid) (s s' : Database) : Prop :=
  ∀ row row', s.hunts hunt_id = some row → s'.hunts hunt_id = some row' →
    ∀ used, storedUsage row = some used → ∃ used', storedUsage row' = some used' ∧ used ≤ used'

/-- No write of the history takes anything off the counters stored with the hunt. -/
def UsageGrows (hunt_id : Uuid) (past : List Event) : Prop :=
  ∀ t s s', Store.Event.committed (S := signature) t s s' ∈ past → KeepsUsage hunt_id s s'

/-- The last clock reading of a history. -/
def lastReading : List Event → Option Instant
  | [] => none
  | .answered .now t :: _ => some t
  | _ :: past => lastReading past

/-- The store a history leads to. -/
def storeAfter (s₀ : Database) : List Event → Database
  | [] => s₀
  | .answered _ _ :: past => storeAfter s₀ past
  | .committed _ _ s :: _ => s

/-- By the last clock reading, the lease is not valid. -/
def Refused (s₀ : Database) (lease : JobLease) (past : List Event) : Prop :=
  ∃ t, lastReading past = some t ∧ Transaction.effect (.check_lease lease t) (storeAfter s₀ past) = none

/-- The lease was accepted, and at some point after that it was not valid. -/
def Lapsed (s₀ : Database) (lease : JobLease) (past : List Event) : Prop :=
  ∃ past', past' <:+ past ∧ Checked lease past' ∧ Refused s₀ lease past'

theorem Lapsed.later {s₀ : Database} {lease : JobLease} {past past' : List Event} (h : Lapsed s₀ lease past)
    (hs : past <:+ past') : Lapsed s₀ lease past' := by
  obtain ⟨p, hp, hchecked, hrefused⟩ := h
  exact ⟨p, hp.trans hs, hchecked, hrefused⟩

/-- A QUEUED hunt has used nothing yet. -/
def Unused (row : HuntRow) : Prop := row.state = .queued → storedUsage row = none

/-- A RUNNING hunt has the ledger and the start time `execute_job` resumes from. -/
def Recoverable (row : HuntRow) : Prop :=
  row.state = .running → ¬((row.results.getD {}).query_ledger.isNone ∨
    (row.results.getD {}).execution_started_at_utc.isNone)

/-- An attempt records its failure only under a lease that has been valid ever since it was
accepted, and only on a checkpoint that can be resumed. -/
def FailsSoundly (hunt_id : Uuid) (s₀ : Database) (past : List Event) : Event → Prop
  | .committed (.update (.execute_job lease _) _ id _ values) s _ =>
      id = hunt_id → values.state = some .failed → ¬Lapsed s₀ lease past ∧ Stored hunt_id Recoverable s
  | _ => True

end WorkflowService

/-- No transaction changes whose hunt it is. -/
theorem owner_kept {t : Transaction} {s s' : Database} {hunt_id : Uuid} {row row' : HuntRow}
    (htx : t.effect s = some s') (hrow : s.hunts hunt_id = some row) (hrow' : s'.hunts hunt_id = some row') :
    row'.owner_id = row.owner_id := by
  have hstep := rowStep htx hunt_id
  rw [hrow, hrow'] at hstep
  cases hstep with
  | same _ => rfl
  | update _ | enqueue _ => simp [Values.set]

/-- A transaction of the others keeps the hunt's results and, unless it is cancelled, its state. -/
def Untouched (hunt_id : Uuid) (s s' : Database) : Prop :=
  ∀ row', s'.hunts hunt_id = some row' → ∃ row, s.hunts hunt_id = some row ∧ row'.results = row.results ∧
    row'.owner_id = row.owner_id ∧ (row'.state = row.state ∨ row'.state = .cancelled)

theorem Untouched.refl (hunt_id : Uuid) (s : Database) : Untouched hunt_id s s :=
  fun row h => ⟨row, h, rfl, rfl, .inl rfl⟩

theorem Untouched.trans {hunt_id : Uuid} {s₁ s₂ s₃ : Database} (h : Untouched hunt_id s₁ s₂)
    (h' : Untouched hunt_id s₂ s₃) : Untouched hunt_id s₁ s₃ := by
  intro row₃ hrow₃
  obtain ⟨row₂, hrow₂, hr, ho, hs⟩ := h' row₃ hrow₃
  obtain ⟨row₁, hrow₁, hr', ho', hs'⟩ := h row₂ hrow₂
  refine ⟨row₁, hrow₁, hr.trans hr', ho.trans ho', ?_⟩
  rcases hs with hs | hs
  · rw [hs]
    exact hs'
  · exact .inr hs

theorem Elsewhere.untouched {hunt_id : Uuid} {t : Transaction} {s s' : Database} (h : Elsewhere hunt_id t)
    (htx : t.effect s = some s') : Untouched hunt_id s s' := by
  intro row' hrow'
  obtain ⟨row, hrow, hr, -, hs⟩ := h.kept htx row' hrow'
  exact ⟨row, hrow, hr, owner_kept htx hrow hrow', hs⟩

namespace WorkflowService

/-! ### The regime -/

/-- What holds throughout: the store is the one the events lead to, a QUEUED hunt has used
nothing, and no write so far took anything off the counters. -/
structure UsageInv (hunt_id : Uuid) (s₀ : Database) (h : History) : Prop where
  now : h.now = storeAfter s₀ h.past
  unused : Stored hunt_id Unused h.now
  grows : UsageGrows hunt_id h.past

/-- The others keep the hunt and read no clock for the worker. -/
def usageRegime (hunt_id : Uuid) (s₀ : Database) : Regime where
  admits := FailsSoundly hunt_id s₀
  inv := UsageInv hunt_id s₀
  rely h h' := h.past <:+ h'.past ∧ lastReading h'.past = lastReading h.past ∧ Untouched hunt_id h.now h'.now
  guar _ _ := True
  rely_refl h := ⟨List.suffix_refl _, rfl, .refl hunt_id h.now⟩
  rely_trans h h' := ⟨h.1.trans h'.1, h'.2.1.trans h.2.1, h.2.2.trans h'.2.2⟩

section

variable {hunt_id : Uuid} {s₀ : Database}

theorem UsageInv.answer {h : History} (hI : UsageInv hunt_id s₀ h) (q : Ask) (a : q.Answer) :
    UsageInv hunt_id s₀ (h.answer q a) := by
  refine ⟨hI.now, hI.unused, fun t s s' hmem => ?_⟩
  rcases List.mem_cons.mp hmem with he | hmem
  · cases he
  · exact hI.grows t s s' hmem

theorem UsageInv.commit {h : History} {t : Transaction} {s : Database} (hI : UsageInv hunt_id s₀ h)
    (hkeeps : KeepsUsage hunt_id h.now s) (hunused : Stored hunt_id Unused s) :
    UsageInv hunt_id s₀ (h.commit t s) := by
  refine ⟨rfl, hunused, fun t' s' s'' hmem => ?_⟩
  rcases List.mem_cons.mp hmem with he | hmem
  · cases he
    exact hkeeps
  · exact hI.grows t' s' s'' hmem

theorem keepsUsage_of_untouched {s s' : Database} (h : Untouched hunt_id s s') : KeepsUsage hunt_id s s' := by
  intro row row' hrow hrow' used hused
  obtain ⟨row₁, hrow₁, hr, -, -⟩ := h row' hrow'
  obtain rfl := Option.some.inj (hrow.symm.trans hrow₁)
  exact ⟨used, by rw [storedUsage, hr]; exact hused, le_refl used⟩

theorem stored_unused_of_untouched {s s' : Database} (h : Stored hunt_id Unused s) (hk : Untouched hunt_id s s') :
    Stored hunt_id Unused s' := by
  intro row' hrow' hq
  obtain ⟨row, hrow, hr, -, hs⟩ := hk row' hrow'
  rcases hs with hs | hs
  · rw [storedUsage, hr]
    exact h row hrow (hs.symm.trans hq)
  · exact absurd (hs.symm.trans hq) (by decide)

end

/-! ### What lasts -/

/-- An assertion that survives more events, as long as the hunt is left alone. -/
def Durable (hunt_id : Uuid) (P : History → Prop) : Prop :=
  ∀ h h' : History, h.past <:+ h'.past → Untouched hunt_id h.now h'.now → P h → P h'

namespace Durable

variable {hunt_id : Uuid} {s₀ : Database} {P Q : History → Prop}

theorem and (hP : Durable hunt_id P) (hQ : Durable hunt_id Q) : Durable hunt_id fun h => P h ∧ Q h :=
  fun h h' hs hk hp => ⟨hP h h' hs hk hp.1, hQ h h' hs hk hp.2⟩

theorem or (hP : Durable hunt_id P) (hQ : Durable hunt_id Q) : Durable hunt_id fun h => P h ∨ Q h :=
  fun h h' hs hk hp => hp.imp (hP h h' hs hk) (hQ h h' hs hk)

theorem of_rely (hP : Durable hunt_id P) {h h' : History} (hr : (usageRegime hunt_id s₀).rely h h') (hp : P h) :
    P h' := hP h h' hr.1 hr.2.2 hp

theorem answer (hP : Durable hunt_id P) {h : History} (hp : P h) (q : Ask) (a : q.Answer) : P (h.answer q a) :=
  hP h _ (List.suffix_cons _ _) (.refl hunt_id h.now) hp

/-- An answer keeps what lasts. -/
theorem answers (hP : Durable hunt_id P) {q : Ask} : (usageRegime hunt_id s₀).Answers q P fun _ => P :=
  fun _ a hI _ hp => ⟨hI.answer q a, trivial, hP.answer hp q a⟩

/-- A lease check keeps what lasts, and leaves the lease checked. -/
theorem checks (hP : Durable hunt_id P) {lease : JobLease} {now : Instant} :
    (usageRegime hunt_id s₀).Commits (.check_lease lease now) P fun h => P h ∧ Checked lease h.past := by
  intro h s hI htx _ hp
  obtain rfl := (check_lease_accepted htx).1
  have hkept := Untouched.refl hunt_id h.now
  refine ⟨hI.commit (keepsUsage_of_untouched hkept) hI.unused, trivial, ?_, now, h.now, h.now, List.mem_cons_self⟩
  exact hP h _ (List.suffix_cons _ _) hkept hp

theorem checked (lease : JobLease) : Durable hunt_id fun h => Checked lease h.past :=
  fun _ _ hs _ hc => hc.later hs

theorem lapsed (lease : JobLease) : Durable hunt_id fun h => Lapsed s₀ lease h.past :=
  fun _ _ hs _ hl => hl.later hs

theorem stored {R : HuntRow → Prop}
    (hR : ∀ row row', row'.results = row.results → row'.owner_id = row.owner_id →
      (row'.state = row.state ∨ row'.state = .cancelled) → R row → R row') :
    Durable hunt_id fun h => Stored hunt_id R h.now := by
  intro h h' _ hk hst row' hrow'
  obtain ⟨row, hrow, hr, ho, hs⟩ := hk row' hrow'
  exact hR row row' hr ho hs (hst row hrow)

end Durable

/-! ### The discipline of an attempt -/

/-- The counters in memory include the stored ones. -/
def Covered (usage : Option BudgetCounters) (m : BudgetCounters) : Prop :=
  ∀ used, usage = some used → used ≤ m

theorem Covered.mono {usage : Option BudgetCounters} {m m' : BudgetCounters} (h : Covered usage m)
    (hle : m ≤ m') : Covered usage m' := fun used hused => (h used hused).trans hle

/-- An attempt under an accepted lease knows the stored counters, and has them in memory. -/
structure AtUsage (w : Worker) (usage : Option BudgetCounters) (m : BudgetCounters) (h : History) : Prop where
  checked : Checked w.lease h.past
  stored : Stored w.lease.hunt_id (storedUsage · = usage) h.now
  covered : Covered usage m

/-- The assertion of an attempt. -/
def usageAssertion (w : Worker) : Stage (Option BudgetCounters) → BudgetCounters → History → Prop
  | .ready, _, _ => True
  | .working _ usage _, m, h => AtUsage w usage m h
  | .ended usage, m, h => AtUsage w usage m h

/-- The stored counters after a write. -/
theorem storedUsage_set (values : Values) (row : HuntRow) :
    storedUsage (values.set row) = (values.results.map (·.usage)).getD (storedUsage row) := by
  cases hr : values.results with
  | none => simp [storedUsage, Values.set, hr]
  | some r => simp [storedUsage, Values.set, hr]

section

variable {s₀ : Database} {w : Worker} {usage : Option BudgetCounters} {m m' : BudgetCounters}

theorem AtUsage.durable : Durable w.lease.hunt_id (AtUsage w usage m) := by
  intro h h' hs hk hat
  have hstored : Durable w.lease.hunt_id fun h => Stored w.lease.hunt_id (storedUsage · = usage) h.now := by
    refine Durable.stored fun row row' hres _ _ hrow => ?_
    rwa [storedUsage, hres]
  exact ⟨hat.checked.later hs, hstored h h' hs hk hat.stored, hat.covered⟩

theorem AtUsage.mono {h : History} (hat : AtUsage w usage m h) (hle : m ≤ m') : AtUsage w usage m' h :=
  ⟨hat.checked, hat.stored, hat.covered.mono hle⟩

theorem usageAssertion_durable (st : Stage (Option BudgetCounters)) :
    Durable w.lease.hunt_id (usageAssertion w st m) := by
  cases st with
  | ready => exact fun _ _ _ _ ha => ha
  | working | ended => exact AtUsage.durable

/-- A write of the worker that takes nothing off the stored counters. -/
theorem usage_write {completed : Option QueryExecution} {s : HuntState} {values : Values}
    {usage' : Option BudgetCounters} (husage : (values.results.map (·.usage)).getD usage = usage')
    (hle : ∀ used, usage = some used → ∃ used', usage' = some used' ∧ used ≤ used')
    (hq : values.state.getD s = .queued → s = .queued ∧ usage' = usage) (hc : Covered usage' m) :
    (usageRegime w.lease.hunt_id s₀).Commits (w.write completed { state := some s } values)
      (AtUsage w usage m) (AtUsage w usage' m) := by
  intro h db hI htx _ hat
  have hset : ∀ row, h.now.hunts w.lease.hunt_id = some row → storedUsage (values.set row) = usage' := by
    intro row hrow
    rw [storedUsage_set, hat.stored row hrow, husage]
  refine ⟨hI.commit ?_ ?_, trivial, hat.checked.later (List.suffix_cons _ _), ?_, hc⟩
  · intro row row' hrow hrow' used hused
    obtain ⟨row₁, hrow₁, -, hset₁⟩ := Worker.write_effect htx
    obtain rfl := Option.some.inj (hset₁.symm.trans hrow')
    rw [hset row₁ hrow₁]
    exact hle used ((hat.stored row hrow).symm.trans hused)
  · refine Worker.stored_write htx fun row hrow hm hqueued => ?_
    have hstate : row.state = s := Expect.state_of_matches hm rfl
    obtain ⟨hs, hsame⟩ := hq (by rw [← hstate]; exact hqueued)
    rw [hset row hrow, hsame, ← hat.stored row hrow]
    exact hI.unused row hrow (hstate.trans hs)
  · exact Worker.stored_write htx fun row hrow _ => hset row hrow

/-- A write that stores the counters in memory. -/
theorem usage_spend {completed : Option QueryExecution} {s : HuntState} {values : Values} {r : Results}
    (hr : values.results = some r) (hu : r.usage = some m) (hs : values.state.getD s ≠ .queued) :
    (usageRegime w.lease.hunt_id s₀).Commits (w.write completed { state := some s } values)
      (AtUsage w usage m) (AtUsage w (some m) m) := by
  intro h db hI htx ha hat
  have hwrite : (usageRegime w.lease.hunt_id s₀).Commits (w.write completed { state := some s } values)
      (AtUsage w usage m) (AtUsage w (some m) m) := by
    refine usage_write (by simp [hr, hu]) (fun used hused => ⟨m, rfl, hat.covered used hused⟩)
      (fun hq => absurd hq hs) ?_
    intro used hused
    exact le_of_eq (Option.some.inj hused).symm
  exact hwrite h db hI htx ha hat

/-- A write that leaves the stored counters alone. -/
theorem usage_leave {completed : Option QueryExecution} {s : HuntState} {values : Values}
    (hsame : (values.results.map (·.usage)).getD usage = usage)
    (hs : values.state.getD s = .queued → s = .queued) :
    (usageRegime w.lease.hunt_id s₀).Commits (w.write completed { state := some s } values)
      (AtUsage w usage m) (AtUsage w usage m) := by
  intro h db hI htx ha hat
  exact usage_write hsame (fun used hused => ⟨used, hused, le_refl used⟩) (fun hq => ⟨hs hq, rfl⟩)
    hat.covered h db hI htx ha hat

variable (s₀ w) in
/-- The discipline of counters that only grow. -/
def usageAttempt : Discipline w where
  regime := usageRegime w.lease.hunt_id s₀
  Ghost := Option BudgetCounters
  View r usage := r.usage = usage
  holds := usageAssertion w
  view_congr := @Results.usage_congr
  stable {st m h h'} hr _ ha := (usageAssertion_durable st).of_rely hr ha
  quiet {st m q} _ := (usageAssertion_durable st).answers
  mint := AtUsage.durable.answers
  unmint _ ha := ha
  check {st m now} := by
    intro h s hI htx ha hst
    obtain ⟨hI', hg, hst', -⟩ := (usageAssertion_durable st).checks h s hI htx ha hst
    exact ⟨hI', hg, hst'⟩
  view := by
    intro st usage m h row hst _ ha hrow
    have hstored := (owned_eq_some.mp hrow).1
    cases st with
    | ready => cases hst
    | working | ended =>
        cases hst
        exact ha.stored row hstored
  call {s usage ids m contract repair} _ := by
    intro h a hI ha hat
    obtain ⟨hI', hg, hat'⟩ := AtUsage.durable.answers h a hI ha hat
    exact ⟨hI', hg, AtUsage.mono hat' (m.le_record_model_call repair)⟩
  recount _ hle ha := AtUsage.mono ha hle
  annotate {s usage ids m r at_} _ hv := by
    intro h db hI htx ha hst
    exact usage_leave (by simpa using hv) id h db hI htx ha hst
  checkpoint {usage m r r' entries at_} _ _ hcore := by
    intro h db hI htx ha hst
    have hu : r'.usage = some m := congrArg Core.usage hcore
    obtain ⟨hI', hg, hst'⟩ := usage_spend rfl hu (by simp) h db hI htx ha hst
    exact ⟨hI', hg, some m, hu, hst'⟩
  begin_ {usage m r entries started at_} _ hcore := by
    intro h db hI htx ha hst
    have hu : r.usage = some m := congrArg Core.usage hcore
    obtain ⟨hI', hg, hst'⟩ := usage_spend rfl hu (by simp) h db hI htx ha hst
    exact ⟨hI', hg, some m, hu, hst'⟩
  again _ _ _ := trivial
  rest ha := ha
  finish {usage ids m r r' at_} _ hcore := by
    intro h db hI htx ha hst
    have hu : r'.usage = some m := congrArg Core.usage hcore
    obtain ⟨hI', hg, hst'⟩ := usage_spend rfl hu (by simp) h db hI htx ha hst
    exact ⟨hI', hg, some m, hst'⟩
  report {usage m report_id content at_} := by
    intro h db hI htx ha hst
    obtain ⟨hI', hg, hst'⟩ := usage_leave rfl (by simp) h db hI htx ha hst
    exact ⟨hI', hg, usage, hst'⟩
  fail {usage m s r r' at_} _ _ hcore := by
    intro h db hI htx ha hst
    have hu : r'.usage = some m := congrArg Core.usage hcore
    obtain ⟨hI', hg, hst'⟩ := usage_spend rfl hu (by simp) h db hI htx ha hst
    exact ⟨hI', hg, some m, hst'⟩

theorem usageAttempt_loose : (usageAttempt s₀ w).Loose where
  ask {_ _ _ _ q} _ := AtUsage.durable.answers
  recount _ hle ha := AtUsage.mono ha hle
  store {usage ids m r at_ completed} hu := by
    intro h db hI htx ha hst
    obtain ⟨hI', hg, hst'⟩ := usage_spend rfl hu (by simp) h db hI htx ha hst
    exact ⟨hI', hg, some m, hu, hst'⟩

/-! ### How attempts fail -/

/-- The states a failed attempt takes the hunt out of. -/
def Executing (s : HuntState) : Prop := s = .queued ∨ s = .running ∨ s = .synthesizing

/-- The hunt was found in a state. -/
def Found (w : Worker) (s : HuntState) (h : History) : Prop :=
  Stored w.lease.hunt_id (fun row => row.state = s ∨ row.state = .cancelled) h.now

/-- The attempt cannot record a failure: its lease has lapsed, or the hunt it owns is not in execution
from a checkpoint that can be resumed. -/
def Barred (s₀ : Database) (w : Worker) (h : History) : Prop :=
  Lapsed s₀ w.lease h.past ∨ Stored w.lease.hunt_id
    (fun row => row.owner_id = w.lease.owner_id → Executing row.state → ¬Recoverable row) h.now

/-- An attempt may fail with counters in memory that include the stored ones, or where it is barred
from storing them. -/
def MayFail (s₀ : Database) (w : Worker) (m : BudgetCounters) (h : History) : Prop :=
  Checked w.lease h.past ∧
    (Stored w.lease.hunt_id (fun row => Covered (storedUsage row) m) h.now ∨ Barred s₀ w h)

theorem Found.durable {s : HuntState} : Durable w.lease.hunt_id (Found w s) := by
  refine Durable.stored fun row row' _ _ hs hrow => ?_
  rcases hs with hs | hs
  · rw [hs]
    exact hrow
  · exact .inr hs

theorem Barred.durable : Durable w.lease.hunt_id (Barred s₀ w) := by
  refine (Durable.lapsed w.lease).or (Durable.stored fun row row' hres ho hs hrow => ?_)
  intro howner hexec hrec
  rcases hs with hs | hs
  · refine hrow (ho.symm.trans howner) (hs ▸ hexec) ?_
    rwa [Recoverable, hs, hres] at hrec
  · rw [hs] at hexec
    exact absurd hexec (by simp [Executing])

theorem MayFail.durable : Durable w.lease.hunt_id (MayFail s₀ w m) := by
  refine (Durable.checked w.lease).and (Durable.or (Durable.stored fun row row' hres _ _ hrow => ?_) .durable)
  rwa [storedUsage, hres]

/-- A refused check of a lease that was accepted before is a lapse. -/
theorem lapsed_of_refused {h : History} {now : Instant} (hI : UsageInv w.lease.hunt_id s₀ h)
    (hc : Checked w.lease h.past) (hnow : lastReading h.past = some now)
    (href : Transaction.effect (.check_lease w.lease now) h.now = none) : Lapsed s₀ w.lease h.past := by
  refine ⟨h.past, List.suffix_refl _, hc, now, hnow, ?_⟩
  rw [← hI.now]
  exact href

/-- A lease check after an earlier one: it passes, or the lease has lapsed. -/
theorem usage_require_lease {P : History → Prop} {h : History} (hP : Durable w.lease.hunt_id P)
    (hc : Checked w.lease h.past) (hp : P h) :
    w.require_lease.Safe (usageRegime w.lease.hunt_id s₀) m h
      (fun _ m' h' => m' = m ∧ P h') fun _ _ h' => Checked w.lease h'.past ∧ Lapsed s₀ w.lease h'.past := by
  have hboth := hP.and (Durable.checked w.lease)
  unfold Worker.require_lease Op.require_lease
  refine Proc.Safe.bind (Proc.safe_ask fun h₁ hr₁ hI₁ now ha => ?_)
  obtain ⟨hI₁', hg₁, hp₁⟩ := hboth.answers h₁ now hI₁ ha (hboth.of_rely hr₁ ⟨hp, hc⟩)
  refine ⟨hI₁', hg₁, Proc.Safe.bind (Proc.safe_commit ?_ ?_)⟩
  · intro h₂ hr₂ hI₂ s hs ha₂
    obtain ⟨hI₂', hg₂, hp₂, -⟩ := hP.checks h₂ s hI₂ hs ha₂ (hP.of_rely hr₂ hp₁.1)
    exact ⟨hI₂', hg₂, Proc.safe_pure ⟨rfl, hp₂⟩⟩
  · intro h₂ hr₂ hI₂ hs
    obtain ⟨e, he⟩ := check_lease_refused hs
    have hc₂ := hp₁.2.later hr₂.1
    simp only
    rw [he]
    exact ⟨hc₂, lapsed_of_refused hI₂ hc₂ hr₂.2.1 hs⟩

/-- An update that is refused where the hunt was found in the expected state. -/
theorem barred_of_refused {completed : Option QueryExecution} {s : HuntState} {values : Values} {h : History}
    (hfound : Found w s h) (href : signature.effect (w.write completed { state := some s } values) h.now = none) :
    Barred s₀ w h := by
  refine .inr fun row hrow howner hexec _ => ?_
  rcases hfound row hrow with hs | hs
  · have hmatches : ({ state := some s } : Expect).matches row = true := by simp [Expect.matches, hs]
    have howned := owned_eq_some.mpr ⟨hrow, howner⟩
    simp only [signature, Worker.write, Transaction.effect, Database.updateHunt, howned, hmatches] at href
    cases href
  · rw [hs] at hexec
    exact absurd hexec (by simp [Executing])

/-- An update of a hunt that was found in the expected state. -/
theorem usage_update {completed : Option QueryExecution} {s : HuntState} {values : Values}
    {P R : History → Prop} {h : History} (hP : Durable w.lease.hunt_id P) (hfound : ∀ h, P h → Found w s h)
    (hw : (usageRegime w.lease.hunt_id s₀).Commits (w.write completed { state := some s } values) P R) (hp : P h) :
    (w.update completed { state := some s } values).Safe (usageRegime w.lease.hunt_id s₀) m h
      (fun _ _ h' => R h') fun _ _ h' => P h' ∧ Barred s₀ w h' := by
  refine Proc.Safe.bind (Proc.safe_commit ?_ ?_)
  · intro h' hr hI db hdb ha
    obtain ⟨hI', hg, hr'⟩ := hw h' db hI hdb ha (hP.of_rely hr hp)
    exact ⟨hI', hg, Proc.safe_pure hr'⟩
  · intro h' hr hI href
    have hp' := hP.of_rely hr hp
    exact Proc.safe_throw ⟨hp', barred_of_refused (hfound h' hp') href⟩

/-- A worker writes only to a hunt of the lease's owner. -/
theorem write_owner {completed : Option QueryExecution} {expect : Expect} {values : Values} {s db : Database}
    {row : HuntRow} (htx : signature.effect (w.write completed expect values) s = some db)
    (hrow : s.hunts w.lease.hunt_id = some row) : row.owner_id = w.lease.owner_id := by
  simp only [signature, Worker.write, Transaction.effect, Database.updateHunt] at htx
  split at htx
  next owned howned =>
    obtain ⟨hstored, howner⟩ := owned_eq_some.mp howned
    obtain rfl := Option.some.inj (hrow.symm.trans hstored)
    exact howner
  next => cases htx

/-- Recording a failure: under a sound lease and on a sound checkpoint, the counters in memory include
the stored ones. -/
theorem usage_failed {s : HuntState} (hs : Executing s) {r : Results} {at_ : Instant} (hu : r.usage = some m) :
    (usageRegime w.lease.hunt_id s₀).Commits (w.write none { state := some s }
        { state := some .failed, results := some r, updated_at_utc := at_ })
      (fun h => MayFail s₀ w m h ∧ Found w s h) fun h => Checked w.lease h.past ∧ Barred s₀ w h := by
  intro h db hI htx hsound ⟨⟨hc, hmay⟩, _⟩
  obtain ⟨hvalid, hrec⟩ := hsound rfl rfl
  have hcovered : ∀ row, h.now.hunts w.lease.hunt_id = some row → row.state = s → Covered (storedUsage row) m := by
    intro row hrow hstate
    rcases hmay with hcov | hlapsed | hbad
    · exact hcov row hrow
    · exact absurd hlapsed hvalid
    · exact absurd (hrec row hrow) (hbad row hrow (write_owner htx hrow) (hstate ▸ hs))
  refine ⟨hI.commit ?_ ?_, trivial, hc.later (List.suffix_cons _ _), .inr ?_⟩
  · intro row row' hrow hrow' used hused
    obtain ⟨row₁, hrow₁, hm, hset⟩ := Worker.write_effect htx
    obtain rfl := Option.some.inj (hset.symm.trans hrow')
    obtain rfl := Option.some.inj (hrow.symm.trans hrow₁)
    have hstate : row.state = s := Expect.state_of_matches hm rfl
    refine ⟨m, ?_, hcovered row hrow hstate used hused⟩
    rw [storedUsage_set]
    simp [hu]
  · refine Worker.stored_write htx fun row _ _ hq => ?_
    simp [Values.set] at hq
  · refine Worker.stored_write htx fun row _ _ _ hexec => ?_
    simp [Values.set, Executing] at hexec

/-- The handler of a failed attempt leaves nothing to fail again. -/
theorem usage_executionFailed {h : History} (e : Fault) (hf : MayFail s₀ w m h) :
    (w.executionFailed e).Safe (usageRegime w.lease.hunt_id s₀) m h (fun _ _ _ => True)
      fun _ _ h' => Checked w.lease h'.past ∧ Barred s₀ w h' := by
  unfold Worker.executionFailed
  refine Proc.Safe.bind (Proc.Safe.handle (F := fun _ _ h' => Checked w.lease h'.past ∧ Barred s₀ w h') ?_ ?_)
  · refine Proc.Safe.seq ((usage_require_lease MayFail.durable hf.1 hf).mono (fun _ _ _ h => h) ?_) ?_
    · exact fun _ _ _ h => ⟨h.1, .inl h.2⟩
    intro _ m₁ h₁ ⟨hm₁, hf₁⟩
    subst hm₁
    refine Proc.Safe.bind (Proc.Safe.bind (Proc.safe_read fun h₂ hr₂ _ => ?_))
    have hf₂ := MayFail.durable.of_rely hr₂ hf₁
    cases howned : h₂.now.owned w.lease.owner_id w.lease.hunt_id with
    | none =>
        refine Proc.safe_throw ⟨hf₂.1, .inr fun row hrow howner => ?_⟩
        rw [owned_eq_some.mpr ⟨hrow, howner⟩] at howned
        cases howned
    | some current =>
        have hcurrent := (owned_eq_some.mp howned).1
        refine Proc.safe_pure (Proc.safe_ite (fun hexec => ?_) fun hdone => ?_)
        · have hfound : Found w current.state h₂ := by
            intro row hrow
            rw [Option.some.inj (hcurrent.symm.trans hrow)]
            exact .inl rfl
          have hP : Durable w.lease.hunt_id fun h => MayFail s₀ w m₁ h ∧ Found w current.state h :=
            MayFail.durable.and .durable
          refine Proc.Safe.bind (Proc.safe_get (Proc.Safe.bind (Proc.safe_ask fun h₃ hr₃ hI₃ updated ha => ?_)))
          obtain ⟨hI₃', hg₃, hp₃⟩ := hP.answers h₃ updated hI₃ ha (hP.of_rely hr₃ ⟨hf₂, hfound⟩)
          refine ⟨hI₃', hg₃, (usage_update hP (fun _ hp => hp.2) (usage_failed hexec (by rfl)) hp₃).mono ?_ ?_⟩
          · exact fun _ _ _ h => Proc.safe_throw h
          · exact fun _ _ _ h => ⟨h.1.1.1, h.2⟩
        · refine Proc.safe_pure (Proc.safe_throw ⟨hf₂.1, .inr fun row hrow _ hexec => ?_⟩)
          rw [← Option.some.inj (hcurrent.symm.trans hrow)] at hexec
          exact absurd hexec hdone
  · intro e' m' h' hbarred
    split
    · exact Proc.safe_pure (Proc.safe_throw hbarred)
    · exact Proc.safe_pure (Proc.safe_throw hbarred)
    · exact Proc.safe_throw hbarred

/-- A hunt found SYNTHESIZING: only a lapsed lease or a cancellation keeps its draft report from it. -/
theorem usage_draftReport {h : History} (row : HuntRow) (plan : HuntPlan) (results : Results)
    (hc : Checked w.lease h.past) (hfound : Found w .synthesizing h) :
    (w.draftReport row plan results).Safe (usageRegime w.lease.hunt_id s₀) m h (fun _ _ _ => True)
      fun _ m' => MayFail s₀ w m' := by
  have hP : Durable w.lease.hunt_id fun h => Checked w.lease h.past ∧ Found w .synthesizing h :=
    (Durable.checked w.lease).and .durable
  unfold Worker.draftReport
  refine Proc.Safe.seq ((usage_require_lease hP hc ⟨hc, hfound⟩).mono (fun _ _ _ h => h) ?_) ?_
  · exact fun _ _ _ h => ⟨h.1, .inr (.inl h.2)⟩
  intro _ m₁ h₁ ⟨_, hp₁⟩
  refine Proc.Safe.bind (Proc.safe_ask fun h₂ hr₂ hI₂ report_id ha₂ => ?_)
  obtain ⟨hI₂', hg₂, hp₂⟩ := hP.answers h₂ report_id hI₂ ha₂ (hP.of_rely hr₂ hp₁)
  refine ⟨hI₂', hg₂, Proc.Safe.bind (Proc.safe_ask fun h₃ hr₃ hI₃ updated ha₃ => ?_)⟩
  obtain ⟨hI₃', hg₃, hp₃⟩ := hP.answers h₃ updated hI₃ ha₃ (hP.of_rely hr₃ hp₂)
  refine ⟨hI₃', hg₃, (usage_update (R := fun _ => True) hP (fun _ hp => hp.2) ?_ hp₃).mono
    (fun _ _ _ _ => trivial) fun _ _ _ h => ⟨h.1.1, .inr h.2⟩⟩
  -- no results are stored, so the counters stay
  intro h' db hI' htx _ _
  refine ⟨hI'.commit ?_ ?_, trivial, trivial⟩
  · intro row row' hrow hrow' used hused
    obtain ⟨row₁, hrow₁, -, hset⟩ := Worker.write_effect htx
    obtain rfl := Option.some.inj (hset.symm.trans hrow')
    obtain rfl := Option.some.inj (hrow.symm.trans hrow₁)
    refine ⟨used, ?_, le_refl used⟩
    rw [storedUsage_set]
    exact hused
  · refine Worker.stored_write htx fun row _ _ hq => ?_
    simp [Values.set] at hq

/-- How attempts of the discipline begin and fail. -/
def usageFailures : (usageAttempt s₀ w).Failures where
  failed := MayFail s₀ w
  handled h := Checked w.lease h.past ∧ Barred s₀ w h
  admitted h := Checked w.lease h.past
  of_live {st m h} hl hst := by
    obtain ⟨usage, husage⟩ := hl
    have may : ∀ usage, AtUsage w usage m h → MayFail s₀ w m h := by
      intro usage hat
      refine ⟨hat.checked, .inl fun row hrow => ?_⟩
      show Covered (storedUsage row) m
      rw [hat.stored row hrow]
      exact hat.covered
    cases st with
    | ready => cases husage
    | working s usage ids => exact may usage hst
    | ended usage => exact may usage hst
  of_handled h := ⟨h.1, .inr h.2⟩
  stable hr _ := ⟨MayFail.durable.of_rely hr, (Durable.checked w.lease).of_rely hr⟩
  reads := MayFail.durable.answers
  checks {m now} := by
    intro h s hI htx ha hf
    obtain ⟨hI', hg, hf', -⟩ := MayFail.durable.checks h s hI htx ha hf
    exact ⟨hI', hg, hf'⟩
  arrive {m now} := by
    intro h s hI htx ha _
    have hready : Durable w.lease.hunt_id fun _ => True := fun _ _ _ _ h => h
    obtain ⟨hI', hg, -, hc⟩ := hready.checks h s hI htx ha trivial
    exact ⟨hI', hg, hc⟩
  enter_queued := by
    intro m h bound hI _ hc hrow _ hq
    refine ⟨none, hc, fun row hrow' => ?_, by simp [Covered]⟩
    obtain rfl := Option.some.inj ((owned_eq_some.mp hrow).1.symm.trans hrow')
    exact hI.unused _ hrow' hq
  enter_running := by
    intro m h bound _ _ hc hrow _ _
    refine ⟨storedUsage bound.row, rfl, hc, fun row hrow' => ?_, fun used hused => ?_⟩
    · rw [← Option.some.inj ((owned_eq_some.mp hrow).1.symm.trans hrow')]
    · have hcounters : (bound.row.results.getD {}).counters = used := by
        show ((bound.row.results.getD {}).usage).getD {} = used
        rw [show (bound.row.results.getD {}).usage = some used from hused]
        rfl
      rw [hcounters]
  unrecoverable := by
    intro h row _ hc hrow hrun hbad
    refine ⟨hc, .inr (.inr fun row' hrow' _ _ hrec => ?_)⟩
    obtain rfl := Option.some.inj ((owned_eq_some.mp hrow).1.symm.trans hrow')
    exact hrec hrun hbad
  enter_synthesizing := by
    intro h row plan results _ hc hrow hs
    refine usage_draftReport row plan results hc fun row' hrow' => ?_
    rw [← Option.some.inj ((owned_eq_some.mp hrow).1.symm.trans hrow')]
    exact .inl hs
  handles e hf := usage_executionFailed e hf

end

/-! ### All attempts together -/

/-- The counters stored with the hunt before and after the latest event. -/
def usageChange (hunt_id : Uuid) (h : History) : Option (Option BudgetCounters × Option BudgetCounters) :=
  match h.past with
  | .committed _ s s' :: _ => do
      let row ← s.hunts hunt_id
      let row' ← s'.hunts hunt_id
      pure (storedUsage row, storedUsage row')
  | _ => none

theorem UsageGrows.change {hunt_id : Uuid} {h : History} (hgrows : UsageGrows hunt_id h.past)
    {used used' : BudgetCounters} (hchange : usageChange hunt_id h = some (some used, some used')) :
    used ≤ used' := by
  unfold usageChange at hchange
  split at hchange
  next t s s' past hpast =>
    simp only [Option.bind_eq_bind, Option.bind_eq_some_iff, Option.pure_def, Option.some.injEq, Prod.mk.injEq]
      at hchange
    obtain ⟨row, hrow, row', hrow', hused, hused'⟩ := hchange
    obtain ⟨u, hu, hle⟩ := hgrows t s s' (by rw [hpast]; exact List.mem_cons_self) row row' hrow hrow' used hused
    obtain rfl := Option.some.inj (hu.symm.trans hused')
    exact hle
  next => cases hchange

/-- Does the event record the failure of an attempt? -/
def recordsFailure : Event → Bool
  | .committed (.update (.execute_job _ _) _ _ _ values) _ _ => values.state = some .failed
  | _ => false

/-- Where no failure is recorded, none is recorded unsoundly. -/
theorem failsSoundly_of_none {hunt_id : Uuid} {s₀ : Database} {past : List Event}
    (h : past.all (!recordsFailure ·) = true) : Admitted (FailsSoundly hunt_id s₀) past := by
  induction past with
  | nil => trivial
  | cons e past ih =>
      simp only [List.all_cons, Bool.and_eq_true, Bool.not_eq_true'] at h
      refine ⟨?_, ih h.2⟩
      unfold FailsSoundly
      split
      · exact fun _ hfailed => absurd hfailed (by simpa [recordsFailure] using h.1)
      · trivial

/-- A worker under a lease of the claim at `now`. -/
def workerAt (now : Instant) : Worker where
  helpers := exampleHelpers
  investigation := exampleInvestigation
  service := exampleService
  lease := exampleLease "w1" 1 now

/-- An attempt that resumes a hunt too late for another search, up to the checkpoint that says so. -/
def lateAttempt : List (Session.Turn signature (Except Fault Unit × BudgetCounters)) :=
  .start ((workerAt 950000000).execute_job 1 {}) :: List.replicate 11 (.step (exampleAnswers 960000000 "u"))

/-- A worker resumes a hunt whose report is being written. Its lease runs out, its draft report is
refused, and before the failure is recorded a heartbeat that was already under way extends the lease. -/
def lateHeartbeat : List (Session.Turn signature (Except Fault Unit × BudgetCounters)) :=
  .start ((workerAt 0).execute_job 1 {}) ::
    List.replicate 3 (.step (exampleAnswers 59000000 "u")) ++
    List.replicate 2 (.step (exampleAnswers 60000000 "u")) ++
    .env (.call_jobs exampleService.jobs (.heartbeat (workerAt 0).lease 59000000)) ::
    List.replicate 5 (.step (exampleAnswers 61000000 "u"))

end WorkflowService

end ThreatHunting
