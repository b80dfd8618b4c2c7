import ThreatHunting.Services.Execution

/-!
# ThreatHunting.Services.Attempt

What holds throughout one worker's attempt at a hunt. A `Discipline` is an assertion about
the attempt's memory and the history, one for each stage of the attempt, together with
what each kind of step must do to it. The rules of this module walk `execute_job` once:
an attempt that starts where the discipline is ready is safe, for every discipline. The
laws of executions are then disciplines.
-/

namespace ThreatHunting

open Store Op
open Spl (QueryProposal QueryValidationResult SPLPolicy)

/-! ### The part of the results an execution is accountable for -/

/-- The queries of an execution, their records and evidence, and what they have used up. -/
structure Core where
  ledger : List LedgerEntry
  queries : List QueryRecord
  evidence : List Evidence
  usage : Option BudgetCounters
  started : Option Instant

/-- The core of a results document. -/
def Results.core (r : Results) : Core :=
  ⟨r.ledger, r.queries, r.evidence, r.usage, r.execution_started_at_utc⟩

/-- A core with further queries planned. -/
def Core.plan (c : Core) (entries : List LedgerEntry) : Core := { c with ledger := c.ledger ++ entries }

/-- A core with the counters replaced. -/
def Core.spend (c : Core) (counters : BudgetCounters) : Core := { c with usage := some counters }

/-- Results with the same core record the same usage. -/
theorem Results.usage_congr {r r' : Results} {usage : Option BudgetCounters} (hcore : r'.core = r.core)
    (h : r.usage = usage) : r'.usage = usage := (congrArg Core.usage hcore).trans h

@[simp] theorem Core.plan_nil (c : Core) : c.plan [] = c := by simp [Core.plan]

@[simp] theorem Results.core_plan_queries (r : Results) (entries : List LedgerEntry) :
    (r.plan_queries entries).core = r.core.plan entries := rfl

/-- Every entry is as it was planned. -/
def AllPlanned (entries : List LedgerEntry) : Prop :=
  ∀ e ∈ entries, ∃ query_id proposal phase, e = .plan query_id proposal phase

theorem AllPlanned.nil : AllPlanned [] := by simp [AllPlanned]

theorem AllPlanned.append {xs ys : List LedgerEntry} (hx : AllPlanned xs) (hy : AllPlanned ys) :
    AllPlanned (xs ++ ys) := by
  intro e he
  rcases List.mem_append.mp he with he | he
  · exact hx e he
  · exact hy e he

theorem AllPlanned.plan (query_id : Uuid) (proposal : QueryProposal) (phase : QueryPhase) :
    AllPlanned [.plan query_id proposal phase] := by
  intro e he
  exact ⟨_, _, _, by simpa using he⟩

/-- The counters that limits are checked against agree. -/
def BudgetCounters.SameUse (m m' : BudgetCounters) : Prop :=
  m'.model_calls = m.model_calls ∧ m'.splunk_queries = m.splunk_queries ∧
    m'.cached_rows = m.cached_rows ∧ m'.cached_bytes = m.cached_bytes

theorem check_lease_accepted {lease : JobLease} {now : Instant} {db s : Database}
    (h : Transaction.effect (.check_lease lease now) db = some s) :
    s = db ∧ ∃ j, JobService.require_lease lease.job_id lease.worker_id (some lease.generation)
      (some lease.deployment_scope_id) now db.jobs = .ok j := by
  simp only [Transaction.effect] at h
  split at h
  next j hj =>
    cases h
    exact ⟨rfl, j, hj⟩
  next => cases h

theorem check_lease_refused {lease : JobLease} {now : Instant} {db : Database}
    (h : Transaction.effect (.check_lease lease now) db = none) :
    ∃ e, JobService.require_lease lease.job_id lease.worker_id (some lease.generation)
      (some lease.deployment_scope_id) now db.jobs = .error e := by
  simp only [Transaction.effect] at h
  split at h
  next => cases h
  next e he => exact ⟨e, he⟩

/-- The questions that only look. -/
def Ask.quiet : Ask → Prop
  | .now | .uuid4 | .lease_signal | .prompt _ => True
  | _ => False

/-! ### Disciplines -/

/-- The stage of an attempt: about to start, at work in a state of the hunt with a list of
unused identifiers, or with nothing left but to report how it ended. `Ghost` is what the
attempt knows about the stored results. -/
inductive Stage (Ghost : Type)
  | ready
  | working (state : HuntState) (g : Ghost) (ids : List Uuid)
  | ended (g : Ghost)

/-- What the attempt knows about the stored results. -/
def Stage.ghost {Ghost : Type} : Stage Ghost → Option Ghost
  | .ready => none
  | .working _ g _ | .ended g => some g

/-- The attempt is at work in a state. -/
def Stage.At {Ghost : Type} (s : HuntState) (st : Stage Ghost) : Prop := ∃ g ids, st = .working s g ids

/-- The attempt has checked its lease. -/
def Stage.Live {Ghost : Type} (st : Stage Ghost) : Prop := ∃ g, st.ghost = some g

theorem Stage.At.live {Ghost : Type} {s : HuntState} {st : Stage Ghost} (h : st.At s) : st.Live := by
  obtain ⟨g, ids, rfl⟩ := h
  exact ⟨g, rfl⟩

theorem Stage.live_ended {Ghost : Type} (g : Ghost) : (Stage.ended g).Live := ⟨g, rfl⟩

namespace WorkflowService

/-- The update of a worker. -/
def Worker.write (w : Worker) (completed : Option QueryExecution) (expect : Expect) (values : Values) :
    Transaction :=
  .update (.execute_job w.lease completed) w.lease.owner_id w.lease.hunt_id expect values

/-- An assertion an attempt of the worker keeps. -/
structure Discipline (w : Worker) where
  regime : Regime
  Ghost : Type
  /-- The document agrees with what is known of the stored one. -/
  View : Results → Ghost → Prop
  holds : Stage Ghost → BudgetCounters → History → Prop
  view_congr : ∀ {r r' g}, r'.core = r.core → View r g → View r' g
  stable : ∀ {st m h h'}, regime.rely h h' → regime.inv h' → holds st m h → holds st m h'
  quiet : ∀ {st m q}, q.quiet → regime.Answers q (holds st m) fun _ => holds st m
  /-- A fresh identifier joins the unused ones. -/
  mint : ∀ {s g ids m}, regime.Answers .uuid4 (holds (.working s g ids) m) fun id : Uuid =>
    holds (.working s g (ids ++ [id])) m
  unmint : ∀ {s g ids ids' m h}, List.Sublist ids' ids → holds (.working s g ids) m h →
    holds (.working s g ids') m h
  check : ∀ {st m now}, regime.Commits (.check_lease w.lease now) (holds st m) (holds st m)
  /-- What the attempt reads is what it knows. -/
  view : ∀ {st g m h row}, st.ghost = some g → regime.inv h → holds st m h →
    h.now.owned w.lease.owner_id w.lease.hunt_id = some row → View (row.results.getD {}) g
  /-- A model call, counted before it is made. -/
  call : ∀ {s g ids m contract repair}, m.model_calls < w.limits.max_model_calls →
    regime.Answers (.complete contract repair) (holds (.working s g ids) m) fun _ =>
      holds (.working s g ids) (m.record_model_call repair)
  recount : ∀ {s g ids m m' h}, m.SameUse m' → m ≤ m' → holds (.working s g ids) m h →
    holds (.working s g ids) m' h
  /-- A checkpoint that leaves the core alone. -/
  annotate : ∀ {s g ids m r at_}, s = .queued ∨ s = .running → View r g →
    regime.Commits (w.write none { state := some s } { results := some r, updated_at_utc := at_ })
      (holds (.working s g ids) m) (holds (.working s g ids) m)
  /-- A checkpoint of the counters and of further planned queries. -/
  checkpoint : ∀ {g m r r' entries at_}, View r g → AllPlanned entries →
    r'.core = (r.core.plan entries).spend m →
    regime.Commits (w.write none { state := some .running } { results := some r', updated_at_utc := at_ })
      (holds (.working .running g (entries.map (·.query_id))) m) fun h =>
        ∃ g', View r' g' ∧ holds (.working .running g' []) m h
  /-- The first checkpoint. -/
  begin_ : ∀ {g m r entries started at_}, AllPlanned entries →
    r.core = ⟨entries, [], [], some m, some started⟩ →
    regime.Commits (w.write none { state := some .queued }
        { state := some .running, results := some r, updated_at_utc := at_ })
      (holds (.working .queued g (entries.map (·.query_id))) m) fun h =>
        ∃ g', View r g' ∧ holds (.working .running g' []) m h
  /-- Where the stored counters are those in memory, another attempt may start. -/
  again : ∀ {g ids m h r}, View r g → r.usage = some m → holds (.working .running g ids) m h →
    holds .ready m h
  rest : ∀ {s g ids m h}, holds (.working s g ids) m h → holds (.ended g) m h
  /-- The end of the investigation. -/
  finish : ∀ {g ids m r r' at_}, View r g → r'.core = r.core.spend m →
    regime.Commits (w.write none { state := some .running }
        { state := some .synthesizing, results := some r', updated_at_utc := at_ })
      (holds (.working .running g ids) m) fun h => ∃ g', holds (.ended g') m h
  report : ∀ {g m report_id content at_},
    regime.Commits (w.write none { state := some .synthesizing }
        { state := some .report_draft, report_id := some report_id, report_version := some 1
          report_state := some .report_draft, report_content := some content, updated_at_utc := at_ })
      (holds (.ended g) m) fun h => ∃ g', holds (.ended g') m h
  fail : ∀ {g m s r r' at_}, s = .queued ∨ s = .running ∨ s = .synthesizing → View r g →
    r'.core = r.core.spend m →
    regime.Commits (w.write none { state := some s }
        { state := some .failed, results := some r', updated_at_utc := at_ })
      (holds (.ended g) m) fun h => ∃ g', holds (.ended g') m h

namespace Discipline

variable {w : Worker} {D : Discipline w} {α β : Type} {st : Stage D.Ghost} {m : BudgetCounters}

/-! ### Judgements -/

/-- From the stage `st` with memory `m`, the procedure is safe; it returns and raises only at
stages that satisfy `Q` and `E`. -/
def Runs (D : Discipline w) (st : Stage D.Ghost) (m : BudgetCounters) (p : Op α)
    (Q : α → BudgetCounters → Stage D.Ghost → Prop) (E : BudgetCounters → Stage D.Ghost → Prop) : Prop :=
  ∀ h, D.holds st m h → p.Safe D.regime m h (fun a m' h' => ∃ st', Q a m' st' ∧ D.holds st' m' h')
    (fun _ m' h' => ∃ st', E m' st' ∧ D.holds st' m' h')

/-- The procedure stays at the stage `st` and returns only what satisfies `Q`; if `still`, it
leaves the memory alone too. -/
def Stays (D : Discipline w) (still : Prop) (st : Stage D.Ghost) (p : Op α) (Q : α → Prop) : Prop :=
  ∀ m, D.Runs st m p (fun a m' st' => (still → m' = m) ∧ st' = st ∧ Q a)
    fun m' st' => (still → m' = m) ∧ st' = st

/-- The procedure changes neither stage nor memory. -/
abbrev Still (D : Discipline w) (st : Stage D.Ghost) (p : Op α) (Q : α → Prop) : Prop := D.Stays True st p Q

/-- The procedure stays at its stage. -/
abbrev Calm (D : Discipline w) (st : Stage D.Ghost) (p : Op α) (Q : α → Prop) : Prop := D.Stays False st p Q

section Runs

variable {Q T : α → BudgetCounters → Stage D.Ghost → Prop} {R : β → BudgetCounters → Stage D.Ghost → Prop}
  {E F : BudgetCounters → Stage D.Ghost → Prop}

theorem Runs.pure {a : α} (h : Q a m st) : D.Runs st m (Pure.pure a) Q E :=
  fun _ hst => Proc.safe_pure ⟨st, h, hst⟩

theorem Runs.raise {e : Fault} (h : E m st) : D.Runs st m (Op.raise e : Op α) Q E :=
  fun _ hst => Proc.safe_throw ⟨st, h, hst⟩

theorem Runs.halt : D.Runs st m (Proc.halt : Op α) Q E := fun _ _ => Proc.safe_halt

theorem Runs.mono {p : Op α} (hp : D.Runs st m p Q E) (hQ : ∀ a m' st', Q a m' st' → T a m' st')
    (hE : ∀ m' st', E m' st' → F m' st') : D.Runs st m p T F := by
  intro h hst
  refine (hp h hst).mono ?_ ?_
  · intro a m' h' ⟨st', hq, hst'⟩
    exact ⟨st', hQ a m' st' hq, hst'⟩
  · intro e m' h' ⟨st', he, hst'⟩
    exact ⟨st', hE m' st' he, hst'⟩

theorem Runs.bind {p : Op α} {f : α → Op β} (hp : D.Runs st m p Q E)
    (hf : ∀ a m' st', Q a m' st' → D.Runs st' m' (f a) R E) : D.Runs st m (p >>= f) R E := by
  intro h hst
  refine Proc.Safe.seq (hp h hst) ?_
  intro a m' h' ⟨st', hq, hst'⟩
  exact hf a m' st' hq h' hst'

theorem Runs.handle {p : Op α} {handler : Fault → Op α} (hp : D.Runs st m p Q F)
    (he : ∀ e m' st', F m' st' → D.Runs st' m' (handler e) Q E) :
    D.Runs st m (p.handle handler) Q E := by
  intro h hst
  refine Proc.Safe.handle (hp h hst) ?_
  intro e m' h' ⟨st', hst₁, hst'⟩
  exact he e m' st' hst₁ h' hst'

theorem Runs.get {f : BudgetCounters → Op β} (hf : D.Runs st m (f m) R E) :
    D.Runs st m (Proc.get >>= f) R E :=
  fun h hst => Proc.Safe.bind (Proc.safe_get (hf h hst))

theorem Runs.ite {c : Prop} [Decidable c] {p q : Op α} (hp : c → D.Runs st m p Q E)
    (hq : ¬c → D.Runs st m q Q E) : D.Runs st m (if c then p else q) Q E := by
  by_cases hc : c
  · simpa only [hc, if_true] using hp hc
  · simpa only [hc, if_false] using hq hc

/-- Sequencing after a step that leaves stage and memory alone. -/
theorem Runs.still {p : Op α} {f : α → Op β} {P : α → Prop} (hp : D.Still st p P) (hE : E m st)
    (hf : ∀ a, P a → D.Runs st m (f a) R E) : D.Runs st m (p >>= f) R E := by
  refine Runs.bind (Runs.mono (hp m) (fun _ _ _ h => h) ?_) ?_
  · intro m' st' ⟨hm, hst⟩
    rw [hm trivial, hst]
    exact hE
  · intro a m' st' ⟨hm, hst, ha⟩
    rw [hm trivial, hst]
    exact hf a ha

/-- Sequencing after a step that leaves the stage alone. -/
theorem Runs.calm {p : Op α} {f : α → Op β} {P : α → Prop} (hp : D.Calm st p P)
    (hE : ∀ m', E m' st) (hf : ∀ a m', P a → D.Runs st m' (f a) R E) :
    D.Runs st m (p >>= f) R E := by
  refine Runs.bind (Runs.mono (hp m) (fun _ _ _ h => h) ?_) ?_
  · intro m' st' ⟨_, hst⟩
    rw [hst]
    exact hE m'
  · intro a m' st' ⟨_, hst, ha⟩
    rw [hst]
    exact hf a m' ha

end Runs

section Stays

variable {still : Prop} {P P' : α → Prop} {R : β → Prop}

theorem Stays.pure {a : α} (h : P a) : D.Stays still st (Pure.pure a) P :=
  fun _ => Runs.pure ⟨fun _ => rfl, rfl, h⟩

theorem Stays.raise {e : Fault} : D.Stays still st (Op.raise e : Op α) P :=
  fun _ => Runs.raise ⟨fun _ => rfl, rfl⟩

theorem Stays.mono {p : Op α} (hp : D.Stays still st p P) (hP : ∀ a, P a → P' a) : D.Stays still st p P' :=
  fun m => (hp m).mono (fun a _ _ ⟨hm, hst, ha⟩ => ⟨hm, hst, hP a ha⟩) fun _ _ h => h

theorem Still.calm {p : Op α} (hp : D.Still st p P) : D.Stays still st p P :=
  fun m => (hp m).mono (fun _ _ _ ⟨hm, hst, ha⟩ => ⟨fun _ => hm trivial, hst, ha⟩)
    fun _ _ ⟨hm, hst⟩ => ⟨fun _ => hm trivial, hst⟩

/-- A calm procedure says nothing of the memory. -/
theorem Calm.at_ {p : Op α} (hp : D.Calm st p P) (m m₀ : BudgetCounters) :
    D.Runs st m p (fun a m' st' => (False → m' = m₀) ∧ st' = st ∧ P a)
      fun m' st' => (False → m' = m₀) ∧ st' = st :=
  (hp m).mono (fun _ _ _ ⟨_, h⟩ => ⟨fun hf => hf.elim, h⟩) fun _ _ ⟨_, h⟩ => ⟨fun hf => hf.elim, h⟩

theorem Stays.bind {p : Op α} {f : α → Op β} (hp : D.Stays still st p P)
    (hf : ∀ a, P a → D.Stays still st (f a) R) : D.Stays still st (p >>= f) R := by
  intro m
  refine Runs.bind (hp m) ?_
  intro a m' st' ⟨hm, hst, ha⟩
  rw [hst]
  refine (hf a ha m').mono ?_ ?_
  · intro b m'' st'' ⟨hm', hst', hb⟩
    exact ⟨fun hs => (hm' hs).trans (hm hs), hst', hb⟩
  · intro m'' st'' ⟨hm', hst'⟩
    exact ⟨fun hs => (hm' hs).trans (hm hs), hst'⟩

theorem Stays.handle {p : Op α} {handler : Fault → Op α} (hp : D.Stays still st p P)
    (he : ∀ e, D.Stays still st (handler e) P) : D.Stays still st (p.handle handler) P := by
  intro m
  refine Runs.handle (hp m) ?_
  intro e m' st' ⟨hm, hst⟩
  rw [hst]
  refine (he e m').mono ?_ ?_
  · intro b m'' st'' ⟨hm', hst', hb⟩
    exact ⟨fun hs => (hm' hs).trans (hm hs), hst', hb⟩
  · intro m'' st'' ⟨hm', hst'⟩
    exact ⟨fun hs => (hm' hs).trans (hm hs), hst'⟩

theorem Stays.ite {c : Prop} [Decidable c] {p q : Op α} (hp : c → D.Stays still st p P)
    (hq : ¬c → D.Stays still st q P) : D.Stays still st (if c then p else q) P :=
  fun m => Runs.ite (fun hc => hp hc m) fun hc => hq hc m

theorem Stays.get : D.Stays still st (Proc.get : Op BudgetCounters) fun _ => True :=
  fun _ _ hst => Proc.safe_get ⟨st, ⟨fun _ => rfl, rfl, trivial⟩, hst⟩

theorem Stays.raiseIf {c : Prop} [Decidable c] {e : Fault} :
    D.Stays still st (Op.raiseIf c e) fun _ => ¬c :=
  Stays.ite (fun _ => .raise) fun hc => .pure hc

theorem Stays.ofExcept {x : Except Fault α} : D.Stays still st (Op.ofExcept x) fun a => x = .ok a := by
  cases x with
  | ok a => exact .pure rfl
  | error e => exact .raise

theorem Stays.ofOption {x : Option α} {e : Fault} : D.Stays still st (Op.ofOption x e) fun a => x = some a := by
  cases x with
  | some a => exact .pure rfl
  | none => exact .raise

theorem Stays.collect {f : α → Op β} (hf : ∀ a, D.Stays still st (f a) R) :
    ∀ as, D.Stays still st (Proc.collect f as) fun _ => True
  | [] => .pure trivial
  | a :: as => (hf a).bind fun _ _ => (Stays.collect hf as).bind fun _ _ => .pure trivial

end Stays

/-! ### The steps of an attempt -/

section Steps

variable {still : Prop}

/-- A question that only looks. -/
theorem still_ask {q : Ask} (hq : q.quiet) :
    D.Still st (Proc.ask (S := signature) q : Op _) fun _ => True := by
  intro m h hst
  refine Proc.safe_ask ?_
  intro h' hr hI a ha
  obtain ⟨hI', hg, hst'⟩ := D.quiet hq h' a hI ha (D.stable hr hI hst)
  exact ⟨hI', hg, st, ⟨fun _ => rfl, rfl, trivial⟩, hst'⟩

theorem still_now : D.Still st Op.now fun _ => True := still_ask trivial

theorem still_uuid4 : D.Still st Op.uuid4 fun _ => True := still_ask trivial

/-- Reading the hunt's row. -/
theorem still_row {g : D.Ghost} (hg : st.ghost = some g) :
    D.Still st w.row fun row => D.View (row.results.getD {}) g := by
  intro m h hst
  refine Proc.Safe.bind (Proc.safe_read ?_)
  intro h' hr hI
  have hst' := D.stable hr hI hst
  cases hrow : h'.now.owned w.lease.owner_id w.lease.hunt_id with
  | none => exact Proc.safe_throw ⟨st, ⟨fun _ => rfl, rfl⟩, hst'⟩
  | some row => exact Proc.safe_pure ⟨st, ⟨fun _ => rfl, rfl, D.view hg hI hst' hrow⟩, hst'⟩

/-- Checking the lease. -/
theorem still_require_lease : D.Still st w.require_lease fun _ => True := by
  unfold Worker.require_lease Op.require_lease
  refine still_now.bind fun now _ => ?_
  intro m h hst
  refine Proc.Safe.bind (Proc.safe_commit ?_ ?_)
  · intro h' hr hI s hs ha
    obtain ⟨hI', hg, hst'⟩ := D.check h' s hI hs ha (D.stable hr hI hst)
    exact ⟨hI', hg, Proc.safe_pure ⟨st, ⟨fun _ => rfl, rfl, trivial⟩, hst'⟩⟩
  · intro h' hr hI _
    have refused : D.Still st (do
        let _ ← Op.ofExcept (JobService.require_lease w.lease.job_id w.lease.worker_id
          (some w.lease.generation) (some w.lease.deployment_scope_id) now h'.now.jobs)
        Pure.pure ()) fun _ => True := Stays.ofExcept.bind fun _ _ => .pure trivial
    exact refused m h' (D.stable hr hI hst)

theorem still_is_cancelled (hl : st.Live) : D.Still st w.is_cancelled fun _ => True := by
  obtain ⟨g, hg⟩ := hl
  unfold Worker.is_cancelled
  refine Stays.bind (still_ask trivial) fun signal _ => ?_
  refine Stays.ite (fun _ => .pure trivial) fun _ => ?_
  refine Stays.handle ?_ fun e => ?_
  · exact still_require_lease.bind fun _ _ => (still_row hg).bind fun row _ => .pure trivial
  · split
    · exact .pure trivial
    · exact .pure trivial
    · exact .raise

theorem still_raiseIfCancelled (hl : st.Live) (operation : String) :
    D.Still st (w.raiseIfCancelled operation) fun _ => True :=
  (still_is_cancelled hl).bind fun _ _ => Stays.raiseIf.mono fun _ _ => trivial

/-- An update that may be refused: the stage before, where it is, and what the discipline says of
the transaction, where it is not. -/
theorem runs_update {completed : Option QueryExecution} {expect : Expect} {values : Values}
    {Q : Unit → BudgetCounters → Stage D.Ghost → Prop} {E : BudgetCounters → Stage D.Ghost → Prop}
    (hw : D.regime.Commits (w.write completed expect values) (D.holds st m) fun h =>
      ∃ st', Q () m st' ∧ D.holds st' m h)
    (hE : E m st) : D.Runs st m (w.update completed expect values) Q E := by
  intro h hst
  refine Proc.Safe.bind (Proc.safe_commit ?_ ?_)
  · intro h' hr hI s hs ha
    obtain ⟨hI', hg, hst'⟩ := hw h' s hI hs ha (D.stable hr hI hst)
    exact ⟨hI', hg, Proc.safe_pure hst'⟩
  · intro h' hr hI _
    exact Proc.safe_throw ⟨st, hE, D.stable hr hI hst⟩

end Steps

/-! ### Model calls -/

section Runner

variable {s : HuntState} {g : D.Ghost} {ids : List Uuid}

/-- The runner makes no more calls than the worker may, and asks the worker whether to go on. -/
structure Respects (w : Worker) (runner : StrictModelRunner) : Prop where
  calls : runner.limits.max_model_calls ≤ w.limits.max_model_calls
  cancelled : runner.is_cancelled = w.is_cancelled

/-- Counters may grow in ways no limit is checked against. -/
theorem calm_modify (f : BudgetCounters → BudgetCounters) (hf : ∀ m : BudgetCounters, m.SameUse (f m))
    (hle : ∀ m : BudgetCounters, m ≤ f m) :
    D.Calm (.working s g ids) (Proc.modify f : Op Unit) fun _ => True :=
  fun m _ hst => Proc.safe_modify ⟨_, ⟨fun h => h.elim, rfl, trivial⟩, D.recount (hf m) (hle m) hst⟩

theorem calm_reject (e : Fault) :
    D.Calm (.working s g ids) (StrictModelRunner.reject e : Op α) fun _ => True :=
  (calm_modify (·.record_failed_model_call) (fun _ => ⟨rfl, rfl, rfl, rfl⟩)
    BudgetCounters.le_record_failed_model_call).bind fun _ _ => .raise

/-- The call itself: counted, logged, made, and rejected if the adapter raises. -/
theorem runs_complete {contract : Contract} {repair : Bool} {check : ModelOutputCheck} {f : ModelResponse contract → Op β}
    {Q : β → BudgetCounters → Stage D.Ghost → Prop} {E : BudgetCounters → Stage D.Ghost → Prop}
    (hm : m.model_calls < w.limits.max_model_calls) (hE : ∀ m', E m' (.working s g ids))
    (hf : ∀ response m', D.Runs (.working s g ids) m' (f response) Q E) :
    D.Runs (.working s g ids) m (do
      Proc.modify (·.record_model_call repair)
      Proc.modify (·.append_check check)
      let response ← (StrictModelRunner.complete contract repair).handle StrictModelRunner.reject
      f response) Q E := by
  intro h hst
  refine Proc.Safe.bind (Proc.safe_modify (Proc.Safe.bind (Proc.safe_modify (Proc.Safe.bind ?_))))
  refine Proc.Safe.handle (F := fun _ m' h' => D.holds (.working s g ids) m' h') ?_ ?_
  · refine Proc.Safe.bind (Proc.safe_ask ?_)
    intro h' hr hI a ha
    obtain ⟨hI', hg, hcalled⟩ := D.call hm h' a hI ha (D.stable hr hI hst)
    have hsame : (m.record_model_call repair).SameUse ((m.record_model_call repair).append_check check) :=
      ⟨rfl, rfl, rfl, rfl⟩
    have hst' := D.recount hsame (BudgetCounters.le_append_check _ _) hcalled
    refine ⟨hI', hg, Proc.safe_ofExcept ?_ ?_⟩
    · intro response _
      exact hf response _ _ hst'
    · intro e _
      exact hst'
  · intro e m' h' hst'
    refine (calm_reject e m' h' hst').mono ?_ ?_
    · intro response m'' h'' ⟨st', ⟨_, hst₁, _⟩, hst''⟩
      subst hst₁
      exact hf response m'' h'' hst''
    · intro e' m'' h'' ⟨st', ⟨_, hst₁⟩, hst''⟩
      subst hst₁
      exact ⟨_, hE m'', hst''⟩

theorem calm_check_deadline (runner : StrictModelRunner) :
    D.Calm (.working s g ids) runner.check_deadline fun _ => True := by
  unfold StrictModelRunner.check_deadline
  split
  · exact .pure trivial
  · exact still_now.calm.bind fun _ _ => Stays.raiseIf.mono fun _ _ => trivial

theorem calm_check_arrival (runner : StrictModelRunner) :
    D.Calm (.working s g ids) runner.check_arrival fun _ => True := by
  unfold StrictModelRunner.check_arrival
  split
  · exact .pure trivial
  · exact still_now.calm.bind fun _ _ => Stays.ite (fun _ => calm_reject _) fun _ => .pure trivial

theorem calm_check_finish {contract : Contract} (response : ModelResponse contract) :
    D.Calm (.working s g ids) (StrictModelRunner.check_finish response) fun _ => True := by
  unfold StrictModelRunner.check_finish
  split
  · exact .pure trivial
  · exact calm_reject _
  · exact calm_reject _

theorem calm_call {runner : StrictModelRunner} (hr : Respects w runner) (contract : Contract)
    (request : ModelRequest) (repair : Bool) :
    D.Calm (.working s g ids) (runner.call contract request repair) fun _ => True := by
  unfold StrictModelRunner.call
  rw [hr.cancelled]
  refine Stays.bind (still_is_cancelled ⟨g, rfl⟩).calm fun _ _ => ?_
  refine Stays.raiseIf.bind fun _ _ => ?_
  refine (calm_check_deadline runner).bind fun _ _ => ?_
  intro m
  refine Runs.get (Runs.still Stays.raiseIf ⟨fun h => h.elim, rfl⟩ fun _ hcan => ?_)
  refine Runs.still Stays.raiseIf ⟨fun h => h.elim, rfl⟩ fun _ _ => ?_
  have hlt : m.model_calls < w.limits.max_model_calls := by
    simp only [BudgetCounters.can_start_model_call, decide_eq_false_iff_not, not_not] at hcan
    exact lt_of_lt_of_le hcan hr.calls
  refine runs_complete hlt (fun _ => ⟨fun h => h.elim, rfl⟩) fun response m' => ?_
  have rest : D.Calm (.working s g ids) (do
      Proc.modify (·.update_check fun check =>
        { check with input_tokens := some response.input_tokens, output_tokens := some response.output_tokens })
      Proc.modify (·.record_tokens response.input_tokens response.output_tokens)
      runner.check_arrival
      StrictModelRunner.check_finish response
      let counters ← Proc.get
      Op.raiseIf (runner.limits.max_model_input_tokens < counters.model_input_tokens ∨
          runner.limits.max_model_output_tokens < counters.model_output_tokens)
        (.adapter_error .budget_exhausted "model token budget exhausted" "model.complete")
      pure (contract.structured response.decoded)) fun _ => True := by
    refine (calm_modify (·.update_check _) (fun _ => ⟨rfl, rfl, rfl, rfl⟩) (·.le_update_check _)).bind
      fun _ _ => ?_
    refine (calm_modify (·.record_tokens _ _) (fun _ => ⟨rfl, rfl, rfl, rfl⟩) (·.le_record_tokens _ _)).bind
      fun _ _ => ?_
    refine (calm_check_arrival runner).bind fun _ _ => ?_
    refine (calm_check_finish response).bind fun _ _ => ?_
    exact Stays.get.bind fun _ _ => Stays.raiseIf.bind fun _ _ => .pure trivial
  exact rest.at_ m' m

theorem calm_prompt (runner : StrictModelRunner) (contract : Contract) :
    D.Calm (.working s g ids) (runner.prompt contract) fun _ => True := by
  unfold StrictModelRunner.prompt
  refine Stays.bind (still_ask (q := .prompt contract) trivial).calm fun _ _ => ?_
  refine Stays.ofExcept.bind fun _ _ => ?_
  refine Stays.bind (P := fun _ => True) ?_ fun _ _ => .pure trivial
  exact Stays.get.bind fun _ _ => Stays.raiseIf.mono fun _ _ => trivial

theorem calm_record_validity (valid : Bool) :
    D.Calm (.working s g ids) (StrictModelRunner.record_validity valid) fun _ => True :=
  calm_modify (·.update_check _) (fun _ => ⟨rfl, rfl, rfl, rfl⟩) (·.le_update_check _)

theorem calm_run {runner : StrictModelRunner} (hr : Respects w runner) (contract : Contract) :
    D.Calm (.working s g ids) (runner.run contract) fun _ => True := by
  unfold StrictModelRunner.run
  refine (calm_prompt runner contract).bind fun _ _ => ?_
  refine (calm_call hr contract _ false).bind fun first _ => ?_
  cases first with
  | ok value => exact (calm_record_validity true).bind fun _ _ => .pure trivial
  | error reason =>
      refine (calm_record_validity false).bind fun _ _ => ?_
      refine (calm_prompt runner contract).bind fun _ _ => ?_
      refine (calm_call hr contract _ true).bind fun second _ => ?_
      cases second with
      | ok value => exact (calm_record_validity true).bind fun _ _ => .pure trivial
      | error reason => exact (calm_record_validity false).bind fun _ _ => .raise

theorem calm_repair_once {runner : StrictModelRunner} (hr : Respects w runner) (contract : Contract) :
    D.Calm (.working s g ids) (runner.repair_once contract) fun _ => True := by
  unfold StrictModelRunner.repair_once
  refine (calm_prompt runner contract).bind fun _ _ => ?_
  refine (calm_call hr contract _ true).bind fun repaired _ => ?_
  cases repaired with
  | ok value => exact (calm_record_validity true).bind fun _ _ => .pure trivial
  | error reason => exact (calm_record_validity false).bind fun _ _ => .raise

end Runner

/-! ### Planning -/

section Planning

variable {still : Prop} {s : HuntState} {g : D.Ghost} {ids : List Uuid}

/-- A checkpoint that leaves the core alone. -/
theorem still_annotate {r : Results} (hs : s = .queued ∨ s = .running) (hv : D.View r g) :
    D.Still (.working s g ids) (w.checkpoint none s r) fun _ => True := by
  unfold Worker.checkpoint
  refine still_now.bind fun updated _ => fun m => ?_
  refine runs_update ?_ ⟨fun _ => rfl, rfl⟩
  intro h db hI hdb ha hst
  obtain ⟨hI', hg, hst'⟩ := D.annotate hs hv h db hI hdb ha hst
  exact ⟨hI', hg, _, ⟨fun _ => rfl, rfl, trivial⟩, hst'⟩

theorem still_persist_policy_rejections (hs : s = .queued ∨ s = .running) (rejected : List PolicyRejection) :
    D.Still (.working s g ids) (w.persist_policy_rejections rejected s) fun _ => True := by
  unfold Worker.persist_policy_rejections
  refine Stays.ite (fun _ => .pure trivial) fun _ => ?_
  refine Stays.bind (still_row rfl) fun current hv => ?_
  exact still_annotate hs (D.view_congr (by rfl) hv)

theorem still_validate (policy : SPLPolicy) (open_ids : Option (List String)) (proposal : QueryProposal) :
    D.Still st (w.validate policy open_ids proposal) fun _ => True := by
  unfold Worker.validate
  exact still_uuid4.bind fun _ _ => Stays.ofExcept.bind fun _ _ => .pure trivial

/-- A validated proposal comes with a fresh identifier. -/
theorem runs_validate (policy : SPLPolicy) (open_ids : Option (List String)) (proposal : QueryProposal) :
    D.Runs (.working s g ids) m (w.validate policy open_ids proposal)
      (fun x m' st' => m' = m ∧ st' = .working s g (ids ++ [x.2.1]))
      fun m' st' => m' = m ∧ st' = .working s g ids := by
  unfold Worker.validate
  intro h hst
  refine Proc.Safe.bind (Proc.safe_ask ?_)
  intro h' hr hI id ha
  have hst' := D.stable hr hI hst
  have hnew := D.mint h' id hI ha hst'
  refine ⟨hnew.1, hnew.2.1, ?_⟩
  cases hv : w.judge policy open_ids proposal with
  | ok v => exact Proc.safe_pure ⟨_, ⟨rfl, rfl⟩, hnew.2.2⟩
  | error e => exact Proc.safe_throw ⟨_, ⟨rfl, rfl⟩, D.unmint (List.sublist_append_left _ _) hnew.2.2⟩

/-- Collecting what brings fresh identifiers with it. -/
theorem runs_collect {f : α → Op β} {key : β → List Uuid} {P : β → Prop}
    (hf : ∀ a ids, D.Runs (.working s g ids) m (f a)
      (fun b m' st' => m' = m ∧ st' = .working s g (ids ++ key b) ∧ P b) fun _ st' => st'.At s) :
    ∀ as ids, D.Runs (.working s g ids) m (Proc.collect f as)
      (fun bs m' st' => m' = m ∧ st' = .working s g (ids ++ bs.flatMap key) ∧ ∀ b ∈ bs, P b)
      fun _ st' => st'.At s
  | [], ids => .pure ⟨rfl, by simp, by simp⟩
  | a :: as, ids => by
      refine Runs.bind (hf a ids) ?_
      intro b m₁ st₁ ⟨hm₁, hst₁, hb⟩
      rw [hm₁, hst₁]
      refine Runs.bind (runs_collect hf as _) ?_
      intro bs m₂ st₂ ⟨hm₂, hst₂, hbs⟩
      rw [hm₂, hst₂]
      refine Runs.pure ⟨rfl, by simp, ?_⟩
      intro c hc
      rcases List.mem_cons.mp hc with rfl | hc
      · exact hb
      · exact hbs c hc

theorem calm_repairProposals (policy : SPLPolicy) (open_ids : List String) {runner : StrictModelRunner}
    (hr : Respects w runner) (rejected : List PolicyRejection) :
    D.Calm (.working .queued g ids) (w.repairProposals policy open_ids runner rejected) fun _ => True := by
  unfold Worker.repairProposals
  refine (still_persist_policy_rejections (.inl rfl) rejected).calm.bind fun _ _ => ?_
  refine (calm_repair_once hr .query_proposals).bind fun proposals _ => ?_
  refine Stays.bind (Stays.collect (fun p => (still_validate policy _ p).calm) proposals) fun validated _ => ?_
  refine Stays.ite (fun _ => .pure trivial) fun _ => ?_
  exact (still_persist_policy_rejections (.inl rfl) _).calm.bind fun _ _ => .raise

/-- The entries of a drafted ledger are planned, under fresh identifiers. -/
theorem runs_draft_execution_ledger (policy : SPLPolicy) (open_ids : List String) :
    D.Runs (.working .queued g []) m (w.draft_execution_ledger policy open_ids)
      (fun entries _ st' => AllPlanned entries ∧ st' = .working .queued g (entries.map (·.query_id)))
      fun _ st' => st'.At .queued := by
  unfold Worker.draft_execution_ledger
  have hr : Respects w { limits := w.limits, deadline := none, is_cancelled := w.is_cancelled } :=
    ⟨le_refl _, rfl⟩
  refine Runs.calm (calm_run hr .query_proposals) (fun _ => ⟨g, [], rfl⟩) fun proposals m₁ _ => ?_
  refine Runs.calm (Stays.collect (fun p => (still_validate policy _ p).calm) proposals)
    (fun _ => ⟨g, [], rfl⟩) fun validated m₂ _ => ?_
  refine Runs.calm (P := fun _ => True) ?_ (fun _ => ⟨g, [], rfl⟩) fun proposals m₃ _ => ?_
  · exact Stays.ite (fun _ => .pure trivial) fun _ => calm_repairProposals policy open_ids hr _
  have entry : ∀ (p : QueryProposal) ids, D.Runs (.working .queued g ids) m₃ (w.ledgerEntry policy open_ids p)
      (fun e m' st' => m' = m₃ ∧ st' = .working .queued g (ids ++ [e.query_id]) ∧
        ∃ query_id proposal phase, e = .plan query_id proposal phase) fun _ st' => st'.At .queued := by
    intro p ids
    unfold Worker.ledgerEntry
    refine Runs.bind ((runs_validate policy _ p).mono (fun _ _ _ h => h) ?_) ?_
    · intro m' st' ⟨_, hst'⟩
      exact ⟨g, ids, hst'⟩
    · intro x m' st' ⟨hm', hst'⟩
      rw [hm', hst']
      refine Runs.still Stays.raiseIf ⟨g, _, rfl⟩ fun _ _ => ?_
      exact .pure ⟨rfl, rfl, _, _, _, rfl⟩
  refine (runs_collect entry proposals []).mono ?_ fun _ _ h => h
  intro entries m' st' ⟨_, hst', hplanned⟩
  refine ⟨hplanned, ?_⟩
  rw [hst']
  simp [List.map_eq_flatMap]

end Planning

/-! ### Rounds -/

section Rounds

variable {g : D.Ghost} {ids : List Uuid}

/-- The document is the stored one with further queries planned under the identifiers. -/
def Extends (D : Discipline w) (g : D.Ghost) (ids : List Uuid) (r' : Results) : Prop :=
  ∃ r entries, D.View r g ∧ AllPlanned entries ∧ ids = entries.map (·.query_id) ∧
    r'.core = r.core.plan entries

theorem Extends.of_view {r r' : Results} (hv : D.View r g) (hr : r'.core = r.core) : Extends D g [] r' :=
  ⟨r, [], hv, .nil, rfl, by simpa using hr⟩

theorem Extends.congr {r r' : Results} (hx : Extends D g ids r) (hr : r'.core = r.core) :
    Extends D g ids r' := by
  obtain ⟨r₀, entries, hv, hp, hids, hcore⟩ := hx
  exact ⟨r₀, entries, hv, hp, hids, hr.trans hcore⟩

/-- A checkpoint of the counters and of what is newly planned. -/
theorem runs_checkpoint {r r' : Results} (hx : Extends D g ids r) (hr : r'.core = r.core.spend m) :
    D.Runs (.working .running g ids) m (w.checkpoint none .running r')
      (fun _ m' st' => m' = m ∧ ∃ g', D.View r' g' ∧ st' = .working .running g' [])
      fun _ st' => st'.At .running := by
  obtain ⟨r₀, entries, hv, hp, rfl, hcore⟩ := hx
  unfold Worker.checkpoint
  refine Runs.still still_now ⟨g, _, rfl⟩ fun updated _ => runs_update ?_ ⟨g, _, rfl⟩
  intro h db hI hdb ha hst
  have hr' : r'.core = (r₀.core.plan entries).spend m := by rw [hr, hcore]
  obtain ⟨hI', hg, g', hv', hst'⟩ := D.checkpoint hv hp hr' h db hI hdb ha hst
  exact ⟨hI', hg, _, ⟨rfl, g', hv', rfl⟩, hst'⟩

theorem runs_sourceChecks (policy : SPLPolicy) (ledger : List LedgerEntry) (available : Nat) :
    ∀ (cs : List SourceCoverage) (planned : List LedgerEntry), AllPlanned planned →
      D.Runs (.working .running g (planned.map (·.query_id))) m
        (w.sourceChecks policy ledger available cs planned)
        (fun out m' st' => m' = m ∧ AllPlanned out ∧ st' = .working .running g (out.map (·.query_id)))
        fun _ st' => st'.At .running := by
  intro cs
  induction cs with
  | nil => exact fun planned hp => Runs.pure ⟨rfl, hp, rfl⟩
  | cons c cs ih =>
      intro planned hp
      unfold Worker.sourceChecks
      split
      · exact ih planned hp
      · refine Runs.ite (fun _ => ih planned hp) fun _ => ?_
        refine Runs.still Stays.ofExcept ⟨g, _, rfl⟩ fun proposal _ => ?_
        refine Runs.bind ((runs_validate policy none proposal).mono (fun _ _ _ h => h) ?_) ?_
        · intro m' st' ⟨_, hst'⟩
          exact ⟨g, _, hst'⟩
        · intro x m' st' ⟨hm', hst'⟩
          rw [hm', hst']
          refine Runs.still Stays.raiseIf ⟨g, _, rfl⟩ fun _ _ => ?_
          have hnext := ih _ (hp.append (.plan x.2.1 proposal (.source_coverage c.query_id c.source)))
          simpa [LedgerEntry.plan] using hnext

theorem runs_planSourceChecks (policy : SPLPolicy) (results : Results) :
    D.Runs (.working .running g []) m (w.planSourceChecks policy results)
      (fun out m' st' => m' = m ∧ AllPlanned out ∧ st' = .working .running g (out.map (·.query_id)))
      fun _ st' => st'.At .running := by
  unfold Worker.planSourceChecks
  refine Runs.get (Runs.ite (fun _ => ?_) fun _ => Runs.pure ⟨rfl, .nil, rfl⟩)
  exact runs_sourceChecks policy _ _ _ [] .nil

theorem respects_roundRunner (counters : BudgetCounters) (deadline : Instant) :
    Respects w (w.roundRunner counters deadline) :=
  ⟨Nat.sub_le _ _, rfl⟩

theorem calm_repairAssessments {runner : StrictModelRunner} (hr : Respects w runner)
    {results evidence_results : Results} (groups pending : List Uuid) (assessments : List QueryAssessment)
    (reason : String) (hv : D.View results g) :
    D.Calm (.working .running g ids)
      (w.repairAssessments runner results evidence_results groups pending assessments reason)
      fun x => D.View x.2 g := by
  unfold Worker.repairAssessments
  refine (still_annotate (.inr rfl) (D.view_congr (by rfl) hv)).calm.bind fun _ _ => ?_
  refine Stays.bind (P := fun _ => True) (Stays.handle ?_ fun e => ?_) fun materialized _ => ?_
  · refine Stays.ofExcept.bind fun _ _ => ?_
    refine (calm_repair_once hr .query_assessments).bind fun repaired _ => ?_
    exact Stays.ofExcept.bind fun _ _ => Stays.ofExcept.mono fun _ _ => trivial
  · exact (still_annotate (.inr rfl) (D.view_congr (by rfl) hv)).calm.bind fun _ _ => .raise
  · refine (still_annotate (.inr rfl) (D.view_congr (by rfl) hv)).calm.bind fun _ _ => .pure ?_
    exact D.view_congr (by rfl) hv

theorem calm_assess {runner : StrictModelRunner} (hr : Respects w runner) (plan : HuntPlan)
    (current : HuntRow) {results : Results} (pending : List Uuid) (hv : D.View results g) :
    D.Calm (.working .running g ids) (w.assess runner plan current results pending)
      fun x => D.View x.2.1 g := by
  unfold Worker.assess
  refine Stays.bind (P := fun _ => True) ?_ fun assessments _ => ?_
  · exact Stays.ite (fun _ => .pure trivial) fun _ => calm_run hr .query_assessments
  · split
    · exact .pure hv
    · exact (calm_repairAssessments hr _ pending assessments _ hv).bind fun _ hx => .pure hx
    · exact .raise

theorem calm_followUpRejections (policy : SPLPolicy) (allowed : List String)
    (errors : List (Text × String)) (proposals : List QueryProposal) :
    D.Calm st (w.followUpRejections policy allowed errors proposals) fun _ => True := by
  unfold Worker.followUpRejections
  exact (Stays.collect (fun p => (still_validate policy _ p).calm) proposals).bind fun _ _ => .pure trivial

theorem calm_decide {runner : StrictModelRunner} (hr : Respects w runner) (policy : SPLPolicy)
    (open_ids : List String) (current : HuntRow) (results evidence_results : Results)
    (questions : List Question) :
    D.Calm (.working .running g ids)
      (w.decide_ runner policy open_ids current results evidence_results questions) fun _ => True := by
  unfold Worker.decide_
  refine (calm_run hr (.follow_up_decisions _)).bind fun answered _ => ?_
  refine (calm_followUpRejections policy _ _ _).bind fun rejected _ => ?_
  refine Stays.ite (fun _ => .pure trivial) fun _ => ?_
  refine (still_persist_policy_rejections (.inr rfl) rejected).calm.bind fun _ _ => ?_
  refine (calm_repair_once hr (.follow_up_decisions _)).bind fun repaired _ => ?_
  refine Stays.ite (fun _ => .pure trivial) fun _ => ?_
  exact (still_persist_policy_rejections (.inr rfl) _).calm.bind fun _ _ => .raise

theorem still_completedIdentity (policy : SPLPolicy) (entry : LedgerEntry) :
    D.Still st (w.completedIdentity policy entry) fun _ => True := by
  unfold Worker.completedIdentity
  refine (still_validate policy none entry.proposal).bind fun (_, _, v) _ => ?_
  simp only
  split
  · exact .pure trivial
  · exact .pure trivial

/-- What a round plans is planned under identifiers of validated proposals. -/
theorem planFollowUps_ledger :
    ∀ (validated : List (QueryProposal × Uuid × QueryValidationResult))
      (seen : List (Worker.SearchIdentity × String)),
      AllPlanned (Worker.planFollowUps validated seen).ledger ∧
        List.Sublist ((Worker.planFollowUps validated seen).ledger.map (·.query_id))
          (validated.map (·.2.1)) := by
  intro validated
  induction validated with
  | nil => exact fun seen => ⟨.nil, .refl _⟩
  | cons x validated ih =>
      intro seen
      obtain ⟨proposal, query_id, v⟩ := x
      unfold Worker.planFollowUps
      split
      · exact ⟨(ih seen).1, (ih seen).2.cons _⟩
      · simp only
        split
        · exact ⟨(ih seen).1, (ih seen).2.cons _⟩
        · have hrest := ih (seen ++ [((v.cache_key.getD [], proposal.result_mode),
            "planned question " ++ String.ofList proposal.question_id)])
          exact ⟨(AllPlanned.plan query_id proposal .adaptive_follow_up).append hrest.1,
            hrest.2.cons_cons _⟩

theorem Runs.unmint (ids' : List Uuid) {p : Op α} {Q : α → BudgetCounters → Stage D.Ghost → Prop}
    {E : BudgetCounters → Stage D.Ghost → Prop} (hs : List.Sublist ids' ids)
    (hp : D.Runs (.working .running g ids') m p Q E) : D.Runs (.working .running g ids) m p Q E :=
  fun h hst => hp h (D.unmint hs hst)

theorem runs_planRound (policy : SPLPolicy) (allowed : List String) (results : Results)
    (decisions : List FollowUpDecision) :
    D.Runs (.working .running g []) m (w.planRound policy allowed results decisions)
      (fun x _ st' => ∃ ids, st' = .working .running g ids ∧ Extends D g ids x.1)
      fun _ st' => st'.At .running := by
  unfold Worker.planRound
  refine Runs.calm (Stays.collect (fun e => (still_completedIdentity policy e).calm) _)
    (fun _ => ⟨g, _, rfl⟩) fun seen m₁ _ => ?_
  have fresh : ∀ (p : QueryProposal) ids, D.Runs (.working .running g ids) m₁
      (w.validate policy (some allowed) p)
      (fun x m' st' => m' = m₁ ∧ st' = .working .running g (ids ++ [x.2.1]) ∧ True)
      fun _ st' => st'.At .running := by
    intro p ids
    refine (runs_validate policy _ p).mono ?_ ?_
    · intro x m' st' ⟨hm', hst'⟩
      exact ⟨hm', hst', trivial⟩
    · intro m' st' ⟨_, hst'⟩
      exact ⟨g, ids, hst'⟩
  refine Runs.bind (runs_collect fresh _ []) ?_
  intro validated m₂ st₂ ⟨_, hst₂, _⟩
  rw [hst₂]
  have hledger := planFollowUps_ledger validated (seen.filterMap id)
  refine Runs.unmint ((Worker.planFollowUps validated (seen.filterMap id)).ledger.map (·.query_id))
    (by simpa [List.map_eq_flatMap] using hledger.2) ?_
  refine Runs.ite (fun _ => ?_) fun _ => ?_
  · refine Runs.still (still_row rfl) ⟨g, _, rfl⟩ fun current hv => Runs.pure ⟨_, rfl, ?_⟩
    exact ⟨_, _, hv, hledger.1, rfl, rfl⟩
  · exact Runs.still (still_persist_policy_rejections (.inr rfl) _) ⟨g, _, rfl⟩ fun _ _ => Runs.raise ⟨g, _, rfl⟩

theorem runs_investigate (policy : SPLPolicy) (plan : HuntPlan) (deadline : Instant) (current : HuntRow)
    {results : Results} (pending : List Uuid) (hv : D.View results g) :
    D.Runs (.working .running g []) m (w.investigate policy plan deadline current results pending)
      (fun round _ st' => ∃ ids, st' = .working .running g ids ∧ Extends D g ids round.results)
      fun _ st' => st'.At .running := by
  unfold Worker.investigate
  have hat : ∀ m' : BudgetCounters, (Stage.working HuntState.running g []).At .running := fun _ => ⟨g, _, rfl⟩
  refine Runs.calm (calm_modify (·.record_cycle) (fun _ => ⟨rfl, rfl, rfl, rfl⟩) (·.le_record_cycle)) hat
    fun _ m₁ _ => ?_
  refine Runs.get ?_
  have hr := respects_roundRunner (w := w) m₁ deadline
  refine Runs.calm (calm_assess hr plan current pending hv) hat fun assessed m₂ hv₂ => ?_
  refine Runs.get ?_
  refine Runs.still (still_annotate (.inr rfl) (D.view_congr (by rfl) hv₂)) ⟨g, _, rfl⟩ fun _ _ => ?_
  refine Runs.bind (Q := fun x _ st' => ∃ ids, st' = .working .running g ids ∧ Extends D g ids x.1) ?_ ?_
  · refine Runs.ite (fun _ => ?_) fun _ => ?_
    · exact Runs.pure ⟨[], rfl, .of_view hv₂ rfl⟩
    · exact Runs.calm (calm_decide hr policy _ current _ _ _) hat fun decisions m₃ _ =>
        runs_planRound policy _ _ decisions
  · intro x m' st' ⟨ids, hst', hx⟩
    exact Runs.pure ⟨ids, hst', hx⟩

/-- What a stored round leaves: if the investigation goes on, the counters in memory are stored. -/
def RoundDone (D : Discipline w) (goes_on : Bool) (m : BudgetCounters) (st : Stage D.Ghost) : Prop :=
  ∃ g, st = .working .running g [] ∧ (goes_on = true → ∃ r, D.View r g ∧ r.usage = some m)

theorem runs_storeRound (plan : HuntPlan) {round : Worker.Round} (hx : Extends D g ids round.results) :
    D.Runs (.working .running g ids) m (w.storeRound plan round) D.RoundDone fun _ st' => st'.At .running := by
  unfold Worker.storeRound
  refine Runs.get (Runs.bind (runs_checkpoint hx (by rfl)) ?_)
  intro _ m' st' ⟨hm', g', hv', hst'⟩
  refine Runs.pure ⟨g', hst', fun _ => ⟨_, hv', ?_⟩⟩
  rw [hm']

theorem runs_adaptiveRound (policy : SPLPolicy) (plan : HuntPlan) (deadline : Instant) (current : HuntRow)
    {results : Results} (hv : D.View results g) :
    D.Runs (.working .running g []) m (w.adaptiveRound policy plan deadline current results)
      D.RoundDone fun _ st' => st'.At .running := by
  unfold Worker.adaptiveRound
  refine Runs.get (Runs.ite (fun _ => ?_) fun _ => runs_storeRound plan (.of_view hv rfl))
  refine Runs.bind (runs_investigate policy plan deadline current _ hv) ?_
  intro round m' st' ⟨ids, hst', hx⟩
  rw [hst']
  exact runs_storeRound plan hx

theorem runs_assess_execution_round (policy : SPLPolicy) (plan : HuntPlan) (deadline : Instant) :
    D.Runs (.working .running g []) m (w.assess_execution_round policy plan deadline)
      D.RoundDone fun _ st' => st'.At .running := by
  unfold Worker.assess_execution_round
  refine Runs.still still_require_lease ⟨g, _, rfl⟩ fun _ _ => ?_
  refine Runs.still (still_row rfl) ⟨g, _, rfl⟩ fun current hv => ?_
  refine Runs.ite (fun _ => Runs.pure ⟨g, rfl, by simp⟩) fun _ => ?_
  refine Runs.bind (runs_planSourceChecks policy _) ?_
  intro checks m' st' ⟨hm', hplanned, hst'⟩
  rw [hst']
  refine Runs.ite (fun hempty => ?_) fun _ => ?_
  · rw [List.isEmpty_iff.mp hempty]
    exact runs_adaptiveRound policy plan deadline current hv
  · refine Runs.get (Runs.still still_require_lease ⟨g, _, rfl⟩ fun _ _ => ?_)
    have hx : Extends D g (checks.map (·.query_id)) ((current.results.getD {}).plan_queries checks) :=
      ⟨_, checks, hv, hplanned, rfl, rfl⟩
    refine Runs.bind (runs_checkpoint hx (by rfl)) ?_
    intro _ m'' st'' ⟨hm'', g', hv', hst''⟩
    refine Runs.pure ⟨g', hst'', fun _ => ⟨_, hv', ?_⟩⟩
    rw [hm'']

theorem runs_stopInvestigation (status : String) :
    D.Runs (.working .running g ids) m (w.stopInvestigation status)
      (fun _ _ st' => ∃ g', st' = .working .running g' []) fun _ st' => st'.At .running := by
  unfold Worker.stopInvestigation
  refine Runs.still still_require_lease ⟨g, _, rfl⟩ fun _ _ => ?_
  refine Runs.still (still_row rfl) ⟨g, _, rfl⟩ fun current hv => Runs.get ?_
  refine Runs.unmint [] (List.nil_sublist ids) ((runs_checkpoint (.of_view hv rfl) (by rfl)).mono ?_ fun _ _ h => h)
  intro _ m' st' ⟨_, g', _, hst'⟩
  exact ⟨g', hst'⟩

theorem runs_assessRound (policy : SPLPolicy) (plan : HuntPlan) (d : Worker.Deadlines) :
    D.Runs (.working .running g []) m (w.assessRound policy plan d) D.RoundDone fun _ st' => st'.At .running := by
  unfold Worker.assessRound
  refine Runs.still still_now ⟨g, _, rfl⟩ fun now _ => ?_
  refine Runs.ite (fun _ => ?_) fun _ => Runs.pure ⟨g, rfl, by simp⟩
  refine Runs.handle (runs_assess_execution_round policy plan _) ?_
  intro e m' st' ⟨g', ids', hst'⟩
  rw [hst']
  split
  · refine Runs.bind (runs_stopInvestigation _) ?_
    intro _ m'' st'' ⟨g'', hst''⟩
    exact Runs.pure ⟨g'', hst'', by simp⟩
  · refine Runs.still still_now ⟨g', _, rfl⟩ fun now' _ => ?_
    refine Runs.ite (fun _ => Runs.raise ⟨g', _, rfl⟩) fun _ => ?_
    exact Runs.unmint [] (List.nil_sublist ids') (Runs.pure ⟨g', rfl, by simp⟩)
  · exact Runs.raise ⟨g', _, rfl⟩

end Rounds

/-! ### Synthesis -/

section Synthesis

variable {g : D.Ghost} {ids : List Uuid}

theorem respects_finalRunner (d : Worker.Deadlines) : Respects w (w.finalRunner d) := ⟨le_refl _, rfl⟩

theorem respects_retrievalRunner (d : Worker.Deadlines) (counters : BudgetCounters) :
    Respects w (w.retrievalRunner d counters) := respects_roundRunner _ _

theorem calm_tryComplete (d : Worker.Deadlines) (focused : HuntPlan) :
    D.Calm (.working .running g ids) (w.tryComplete d focused) fun _ => True := by
  unfold Worker.tryComplete
  refine Stays.get.bind fun before _ => Stays.handle ?_ fun e => ?_
  · exact (calm_run (respects_finalRunner d) _).bind fun _ _ => .pure trivial
  · split
    · exact Stays.get.bind fun _ _ => Stays.ite (fun _ => .pure trivial) fun _ => .pure trivial
    · exact .raise

theorem calm_synthesisFailed (focused : HuntPlan) (row : HuntRow) (results : Results) (allow : Bool)
    (e : Fault) : D.Calm st (w.synthesisFailed focused row results allow e) fun _ => True := by
  unfold Worker.synthesisFailed
  split
  · refine Stays.ite (fun _ => .pure trivial) fun _ => Stays.ite (fun _ => .raise) fun _ => ?_
    exact Stays.ofExcept.bind fun _ _ => .pure trivial
  · exact .raise

theorem calm_synthesisStep (d : Worker.Deadlines) (plan : HuntPlan) (row : HuntRow) (results : Results) :
    D.Calm (.working .running g ids) (w.synthesisStep d plan row results) fun _ => True := by
  unfold Worker.synthesisStep
  refine still_now.calm.bind fun now _ => Stays.get.bind fun counters _ => ?_
  refine Stays.bind (P := fun _ => True) ?_ fun first _ => ?_
  · exact Stays.ite (fun _ => calm_tryComplete d _) fun _ => .pure trivial
  cases first with
  | error e => exact calm_synthesisFailed _ row results false e
  | ok first =>
      refine Stays.handle ?_ fun e => calm_synthesisFailed _ row results _ e
      refine Stays.bind (P := fun _ => True) ?_ fun text _ => ?_
      · cases first with
        | some text => exact .pure trivial
        | none =>
            refine calm_run ?_ _
            split
            · exact respects_retrievalRunner d counters
            · exact respects_finalRunner d
      · exact Stays.ofExcept.bind fun _ _ => Stays.ofExcept.bind fun _ _ => .pure trivial

/-- A synthesis step leaves the queries alone. -/
theorem core_afterStep (counters : BudgetCounters) (step : Worker.Synthesis) (results : Results) :
    (Worker.afterStep counters step results).core = results.core.spend counters := by
  cases step <;> rfl

theorem runs_synthesize (d : Worker.Deadlines) (plan : HuntPlan) (row : HuntRow) :
    ∀ (fuel : Nat) {g : D.Ghost} {m : BudgetCounters} {results : Results}, D.View results g →
      D.Runs (.working .running g []) m (w.synthesize d plan row fuel results)
        (fun results' _ st' => ∃ g', st' = .working .running g' [] ∧ D.View results' g')
        fun _ st' => st'.At .running := by
  intro fuel
  induction fuel with
  | zero => exact fun _ => Runs.halt
  | succ fuel ih =>
      intro g m results hv
      unfold Worker.synthesize
      refine Runs.ite (fun _ => Runs.pure ⟨g, rfl, hv⟩) fun _ => ?_
      refine Runs.calm (calm_synthesisStep d plan row results) (fun _ => ⟨g, _, rfl⟩) fun step m₁ _ => ?_
      refine Runs.get (Runs.still still_require_lease ⟨g, _, rfl⟩ fun _ _ => ?_)
      refine Runs.bind (runs_checkpoint (.of_view hv rfl) (core_afterStep m₁ step results)) ?_
      intro _ m' st' ⟨_, g', hv', hst'⟩
      rw [hst']
      exact ih hv'

theorem runs_draftReport (row : HuntRow) (plan : HuntPlan) (results : Results) :
    D.Runs (.ended g) m (w.draftReport row plan results) (fun _ _ st' => st'.Live)
      fun _ st' => st'.Live := by
  unfold Worker.draftReport
  have hl := Stage.live_ended g
  refine Runs.still still_require_lease hl fun _ _ => Runs.still still_uuid4 hl fun report_id _ => ?_
  refine Runs.still still_now hl fun updated _ => runs_update ?_ hl
  intro h db hI hdb ha hst
  obtain ⟨hI', hg, g', hst'⟩ := D.report h db hI hdb ha hst
  exact ⟨hI', hg, _, Stage.live_ended g', hst'⟩

theorem runs_conclude (d : Worker.Deadlines) (row : HuntRow) (plan : HuntPlan) (fuel : Nat) :
    D.Runs (.working .running g []) m (w.conclude d row plan fuel) (fun _ _ st' => st'.Live)
      fun _ st' => st'.Live := by
  unfold Worker.conclude
  have hl : (Stage.working HuntState.running g []).Live := ⟨g, rfl⟩
  refine Runs.still (still_raiseIfCancelled hl _) hl fun _ _ => ?_
  refine Runs.still still_require_lease hl fun _ _ => Runs.still (still_row rfl) hl fun current hv => ?_
  refine Runs.bind ((runs_synthesize d plan row fuel hv).mono (fun _ _ _ h => h) fun _ _ h => h.live) ?_
  intro results m₁ st₁ ⟨g₁, hst₁, hv₁⟩
  rw [hst₁]
  refine Runs.get (Runs.still still_now ⟨g₁, rfl⟩ fun updated _ => ?_)
  refine Runs.bind (Q := fun _ _ st' => ∃ g', st' = .ended g') (runs_update ?_ ⟨g₁, rfl⟩) ?_
  · intro h db hI hdb ha hst
    obtain ⟨hI', hg, g', hst'⟩ := D.finish hv₁ (by rfl) h db hI hdb ha hst
    exact ⟨hI', hg, _, ⟨g', rfl⟩, hst'⟩
  · intro _ m₂ st₂ ⟨g₂, hst₂⟩
    rw [hst₂]
    exact runs_draftReport row plan _

end Synthesis

/-! ### The attempt -/

section Attempt

/-- What an attempt that passes the binding checks works on: the row as it was read, recorded under
the configuration and the budget of the attempt's own process. -/
theorem checkBindings_row {row : HuntRow} {bound : Worker.Bound} (h : w.checkBindings row = .ok bound) :
    bound.row = row ∧ (row.discovery_snapshot.bind (·.execution_config_snapshot)).map (·.payload) =
      some w.service.binding := by
  unfold Worker.checkBindings at h
  obtain ⟨plan, _, h⟩ := Fallible.bind_eq_ok.mp h
  split at h
  · split at h
    · cases h
    split at h
    next snapshot hsnapshot =>
      split at h
      next config hconfig =>
        split at h
        · cases h
        obtain ⟨_, hvalid, h⟩ := Fallible.bind_eq_ok.mp h
        obtain ⟨_, _, h⟩ := Fallible.bind_eq_ok.mp h
        obtain ⟨_, _, h⟩ := Fallible.bind_eq_ok.mp h
        split at h
        · cases h
        · cases h
          refine ⟨rfl, ?_⟩
          unfold Service.validate_execution_snapshot at hvalid
          split at hvalid
          · cases hvalid
          next hpayload => simp [hsnapshot, hconfig, not_not.mp hpayload]
      next => cases h
    next => cases h
  · cases h

/-- The checks before an attempt: what holds at the start still holds if one fails, and an accepted
lease leads to what `C` says. -/
theorem safe_admission {Γ : Regime} {A C : History → Prop} {h : History}
    (stable : ∀ {h h'}, Γ.rely h h' → Γ.inv h' → (A h → A h') ∧ (C h → C h'))
    (reads : Γ.Answers .now A fun _ => A)
    (arrive : ∀ now, Γ.Commits (.check_lease w.lease now) A fun h => A h ∧ C h) (hA : A h) :
    w.admission.Safe Γ m h
      (fun r _ h' => ∀ bound, r = some bound → A h' ∧ C h' ∧ Γ.inv h' ∧
        h'.now.owned w.lease.owner_id w.lease.hunt_id = some bound.row ∧
        w.checkBindings bound.row = .ok bound ∧
        (bound.row.state = .queued ∨ bound.row.state = .running ∨ bound.row.state = .synthesizing))
      fun _ _ h' => A h' := by
  have checked : w.require_lease.Safe Γ m h (fun _ _ h' => A h' ∧ C h') fun _ _ h' => A h' := by
    unfold Worker.require_lease Op.require_lease
    refine Proc.Safe.bind (Proc.safe_ask fun h₁ hr₁ hI₁ now ha => ?_)
    obtain ⟨hI₁', hg₁, hA₁⟩ := reads h₁ now hI₁ ha ((stable hr₁ hI₁).1 hA)
    refine ⟨hI₁', hg₁, Proc.Safe.bind (Proc.safe_commit ?_ ?_)⟩
    · intro h₂ hr₂ hI₂ s hs ha₂
      obtain ⟨hI₂', hg₂, hAC⟩ := arrive now h₂ s hI₂ hs ha₂ ((stable hr₂ hI₂).1 hA₁)
      exact ⟨hI₂', hg₂, Proc.safe_pure hAC⟩
    · intro h₂ hr₂ hI₂ hs
      obtain ⟨e, he⟩ := check_lease_refused hs
      simp only
      rw [he]
      exact (stable hr₂ hI₂).1 hA₁
  unfold Worker.admission
  refine Proc.Safe.bind (Proc.safe_ite (fun _ => Proc.safe_throw hA) fun _ => Proc.safe_pure ?_)
  refine Proc.Safe.bind (Proc.safe_ite (fun _ => Proc.safe_throw hA) fun _ => Proc.safe_pure ?_)
  refine Proc.Safe.bind (Proc.Safe.handle (checked.mono ?_ fun _ _ _ h => h) ?_)
  · intro _ m₁ h₁ ⟨hA₁, hC₁⟩
    refine Proc.Safe.bind (Proc.Safe.bind (Proc.safe_read ?_))
    intro h₂ hr₂ hI₂
    have hA₂ := (stable hr₂ hI₂).1 hA₁
    have hC₂ := (stable hr₂ hI₂).2 hC₁
    cases hrow : h₂.now.owned w.lease.owner_id w.lease.hunt_id with
    | none => exact hA₂
    | some row =>
        refine Proc.safe_pure (Proc.safe_ite (fun _ => Proc.safe_pure (by simp)) fun _ => ?_)
        refine Proc.Safe.bind (Proc.safe_ite (fun _ => Proc.safe_throw hA₂) fun hstate => ?_)
        refine Proc.safe_pure (Proc.Safe.bind (Proc.safe_ofExcept ?_ fun _ _ => hA₂))
        intro bound hbound
        refine Proc.safe_pure ?_
        intro bound' hb
        cases hb
        have hbr := (checkBindings_row hbound).1
        rw [hbr]
        refine ⟨hA₂, hC₂, hI₂, hrow, hbound, ?_⟩
        by_contra hs
        exact hstate (by simpa only [not_or] using hs)
  · intro e m₁ h₁ hA₁
    split
    · exact hA₁
    · exact hA₁

/-- How attempts under a discipline begin and fail. -/
structure Failures (D : Discipline w) where
  /-- An attempt may fail with these counters in memory. -/
  failed : BudgetCounters → History → Prop
  /-- The failure has been handled. -/
  handled : History → Prop
  /-- The lease was accepted. -/
  admitted : History → Prop
  of_live : ∀ {st m h}, st.Live → D.holds st m h → failed m h
  of_handled : ∀ {m h}, handled h → failed m h
  stable : ∀ {m h h'}, D.regime.rely h h' → D.regime.inv h' →
    (failed m h → failed m h') ∧ (admitted h → admitted h')
  reads : ∀ {m}, D.regime.Answers .now (failed m) fun _ => failed m
  checks : ∀ {m now}, D.regime.Commits (.check_lease w.lease now) (failed m) (failed m)
  arrive : ∀ {m now}, D.regime.Commits (.check_lease w.lease now) (D.holds .ready m) admitted
  /-- A hunt found QUEUED starts with nothing counted. -/
  enter_queued : ∀ {m h bound}, D.regime.inv h → D.holds .ready m h → admitted h →
    h.now.owned w.lease.owner_id w.lease.hunt_id = some bound.row → w.checkBindings bound.row = .ok bound →
    bound.row.state = .queued → ∃ g, D.holds (.working .queued g []) {} h
  /-- A hunt found RUNNING goes on from its checkpoint. -/
  enter_running : ∀ {m h bound}, D.regime.inv h → D.holds .ready m h → admitted h →
    h.now.owned w.lease.owner_id w.lease.hunt_id = some bound.row → w.checkBindings bound.row = .ok bound →
    bound.row.state = .running → ∃ g, D.View (bound.row.results.getD {}) g ∧
      D.holds (.working .running g []) (bound.row.results.getD {}).counters h
  /-- Where the checkpoint cannot be resumed, the attempt fails with nothing counted. -/
  unrecoverable : ∀ {h row}, D.regime.inv h → admitted h →
    h.now.owned w.lease.owner_id w.lease.hunt_id = some row → row.state = .running →
    ((row.results.getD {}).query_ledger.isNone ∨ (row.results.getD {}).execution_started_at_utc.isNone) →
    failed {} h
  /-- A hunt found SYNTHESIZING only lacks its draft report. -/
  enter_synthesizing : ∀ {h row plan results}, D.regime.inv h → admitted h →
    h.now.owned w.lease.owner_id w.lease.hunt_id = some row → row.state = .synthesizing →
    (w.draftReport row plan results).Safe D.regime {} h (fun _ _ _ => True) fun _ => failed
  handles : ∀ {m h} (e : Fault), failed m h →
    (w.executionFailed e).Safe D.regime m h (fun _ _ _ => True) fun _ _ => handled

section Failures

variable (F : D.Failures)

/-- What an attempt may go on with, once it was admitted with what `bound` says. -/
def Failures.Enters (bound : Worker.Bound) (h : History) : Prop :=
  (bound.row.state = .queued ∧ ∃ g, D.holds (.working .queued g []) {} h) ∨
  (bound.row.state = .running ∧
    (((bound.row.results.getD {}).query_ledger.isNone ∨
      (bound.row.results.getD {}).execution_started_at_utc.isNone) → F.failed {} h) ∧
    ∃ g, D.View (bound.row.results.getD {}) g ∧
      D.holds (.working .running g []) (bound.row.results.getD {}).counters h) ∨
  (bound.row.state = .synthesizing ∧ ∀ plan results,
    (w.draftReport bound.row plan results).Safe D.regime {} h (fun _ _ _ => True) fun _ => F.failed)

/-- `live` says that the attempt is part of another one. -/
theorem safe_enters {live : Prop} {h : History} (hr : D.holds .ready m h) (hl : live → F.failed m h) :
    w.admission.Safe D.regime m h (fun r _ h' => ∀ bound, r = some bound → F.Enters bound h')
      fun _ _ h' => live → F.failed m h' := by
  refine (safe_admission (A := fun h => D.holds .ready m h ∧ (live → F.failed m h)) (C := F.admitted)
    ?_ ?_ ?_ ⟨hr, hl⟩).mono ?_ ?_
  · intro h h' hrely hI
    obtain ⟨hf, hadm⟩ := F.stable (m := m) hrely hI
    exact ⟨fun ⟨hr, hl⟩ => ⟨D.stable hrely hI hr, fun hlive => hf (hl hlive)⟩, hadm⟩
  · intro h now hI ha ⟨hr, hl⟩
    obtain ⟨hI', hg, hr'⟩ := D.quiet (q := .now) trivial h now hI ha hr
    exact ⟨hI', hg, hr', fun hlive => (F.reads h now hI ha (hl hlive)).2.2⟩
  · intro now h s hI hs ha ⟨hr, hl⟩
    obtain ⟨hI', hg, hr'⟩ := D.check h s hI hs ha hr
    exact ⟨hI', hg, ⟨hr', fun hlive => (F.checks h s hI hs ha (hl hlive)).2.2⟩, (F.arrive h s hI hs ha hr).2.2⟩
  · intro r m' h' hadm bound hbound
    obtain ⟨⟨hr', -⟩, hC, hI, hrow, hb, hq | hrun | hs⟩ := hadm bound hbound
    · exact .inl ⟨hq, F.enter_queued hI hr' hC hrow hb hq⟩
    · exact .inr (.inl ⟨hrun, F.unrecoverable hI hC hrow hrun, F.enter_running hI hr' hC hrow hb hrun⟩)
    · exact .inr (.inr ⟨hs, fun _ _ => F.enter_synthesizing hI hC hrow hs⟩)
  · exact fun _ _ _ h => h.2

/-- The queries of a checkpoint are executed at the stage of a running hunt. -/
def RunsQueries (D : Discipline w) : Prop :=
  ∀ (plan : HuntPlan) (header : PlanHeader) (payload : DiscoveryPayload) (open_ids : List String)
    (started : Instant) (fuel : Nat) (g : D.Ghost) (m : BudgetCounters) (r : Results),
    D.View r g → r.execution_started_at_utc = some started →
    D.Runs (.working .running g []) m
      (w.run_checkpoint_queries (w.executor (w.policy plan header payload) open_ids (w.deadlines started))
        (w.deadlines started) fuel)
      (fun _ _ st' => ∃ g', st' = .working .running g' []) fun _ st' => st'.Live

/-- The first checkpoint of a queued hunt. -/
theorem runs_startRunning {g : D.Ghost} (policy : SPLPolicy) (plan : HuntPlan) :
    D.Runs (.working .queued g []) m (w.startRunning policy plan)
      (fun started _ st' => ∃ g' r, st' = .working .running g' [] ∧ D.View r g' ∧
        r.execution_started_at_utc = some started) fun _ st' => st'.Live := by
  unfold Worker.startRunning
  refine Runs.bind ((runs_draft_execution_ledger policy _).mono (fun _ _ _ h => h) fun _ _ h => h.live) ?_
  intro entries m₁ st₁ ⟨hplanned, hst₁⟩
  rw [hst₁]
  have hl : (Stage.working HuntState.queued g (entries.map (·.query_id))).Live := ⟨g, rfl⟩
  refine Runs.still still_now hl fun started _ => Runs.get (Runs.still (still_row rfl) hl fun current _ => ?_)
  refine Runs.still still_require_lease hl fun _ _ => ?_
  refine Runs.bind (Q := fun _ _ st' => ∃ g' r, st' = .working .running g' [] ∧ D.View r g' ∧
    r.execution_started_at_utc = some started) (runs_update ?_ hl) ?_
  · intro h db hI hdb ha hst
    obtain ⟨hI', hg, g', hv', hst'⟩ := D.begin_ hplanned (by rfl) h db hI hdb ha hst
    exact ⟨hI', hg, _, ⟨g', _, rfl, hv', rfl⟩, hst'⟩
  · intro _ m₂ st₂ hq
    exact Runs.pure hq

/-- Both ways into a running hunt. -/
theorem safe_start {bound : Worker.Bound} {h : History} (policy : SPLPolicy) (he : F.Enters bound h)
    (hs : bound.row.state ≠ .synthesizing) :
    (if bound.row.state = .queued then w.startRunning policy bound.plan
      else Worker.resumeRunning bound.row).Safe D.regime {} h
      (fun started m' h' => ∃ g' r, D.View r g' ∧ r.execution_started_at_utc = some started ∧
        D.holds (.working .running g' []) m' h') fun _ => F.failed := by
  rcases he with ⟨hq, g, hst⟩ | ⟨hrun, hlost, g, hv, hst⟩ | ⟨hsyn, -⟩
  · rw [if_pos hq]
    refine (runs_startRunning policy bound.plan h hst).mono ?_ ?_
    · intro started m' h' ⟨st', ⟨g', r, hst', hv', hr⟩, hh⟩
      rw [hst'] at hh
      exact ⟨g', r, hv', hr, hh⟩
    · intro e m' h' ⟨st', hl, hh⟩
      exact F.of_live hl hh
  · rw [if_neg (by simp [hrun])]
    unfold Worker.resumeRunning
    refine Proc.Safe.bind (Proc.safe_ite (fun hbad => Proc.safe_throw (hlost hbad)) fun hgood => Proc.safe_pure ?_)
    refine Proc.Safe.bind (Proc.safe_modify ?_)
    cases hstart : (bound.row.results.getD {}).execution_started_at_utc with
    | none => exact absurd (.inr (by simp [hstart])) hgood
    | some started => exact Proc.safe_pure ⟨g, _, hv, hstart, hst⟩
  · exact absurd hsyn hs

/-- An attempt inside another one. -/
theorem safe_separately {again : Op Unit} {h : History}
    (ha : again.Safe D.regime m h (fun _ _ _ => True) fun _ _ => F.failed m) :
    (Worker.separately again).Safe D.regime m h (fun _ _ _ => True) fun _ => F.failed := by
  unfold Worker.separately
  refine Proc.Safe.bind (Proc.safe_get (Proc.Safe.bind (Proc.Safe.handle (F := fun _ _ => F.failed m) ?_ ?_)))
  · exact ha.mono (fun _ _ _ _ => Proc.safe_modify trivial) fun _ _ _ h => h
  · intro e m' h' hc
    exact Proc.Safe.bind (Proc.safe_modify (Proc.safe_throw hc))

theorem safe_runInvestigation (hq : D.RunsQueries) {again : Op Unit}
    (hagain : ∀ m h, D.holds .ready m h → F.failed m h →
      again.Safe D.regime m h (fun _ _ _ => True) fun _ _ => F.failed m)
    {bound : Worker.Bound} {h : History} (fuel : Nat) (he : F.Enters bound h)
    (hs : bound.row.state ≠ .synthesizing) :
    (w.runInvestigation again fuel bound).Safe D.regime {} h (fun _ _ _ => True) fun _ => F.failed := by
  unfold Worker.runInvestigation
  refine Proc.Safe.seq (safe_start F _ he hs) ?_
  intro started m₁ h₁ ⟨g₁, r, hv, hstarted, hst₁⟩
  -- from here on the attempt is at the stage of a running hunt
  refine Proc.Safe.seq (T := fun _ m' h' => ∃ g', D.holds (.working .running g' []) m' h') ?_ ?_
  · refine (hq bound.plan bound.header bound.payload _ started fuel g₁ m₁ r hv hstarted h₁ hst₁).mono ?_ ?_
    · intro _ m' h' ⟨st', ⟨g', hst'⟩, hh⟩
      rw [hst'] at hh
      exact ⟨g', hh⟩
    · intro e m' h' ⟨st', hl, hh⟩
      exact F.of_live hl hh
  intro _ m₂ h₂ ⟨g₂, hst₂⟩
  refine Proc.Safe.seq (T := fun goes_on m' h' => ∃ st', D.RoundDone goes_on m' st' ∧ D.holds st' m' h') ?_ ?_
  · refine (runs_assessRound _ bound.plan _ h₂ hst₂).mono (fun _ _ _ h => h) ?_
    intro e m' h' ⟨st', hl, hh⟩
    exact F.of_live hl.live hh
  intro goes_on m₃ h₃ ⟨st₃, ⟨g₃, hst₃, hstored⟩, hh₃⟩
  rw [hst₃] at hh₃
  by_cases hgo : goes_on = true
  · rw [if_pos hgo]
    obtain ⟨r', hv', husage⟩ := hstored hgo
    exact safe_separately F (hagain m₃ h₃ (D.again hv' husage hh₃) (F.of_live ⟨g₃, rfl⟩ hh₃))
  · rw [if_neg hgo]
    have hend : D.Runs (.working .running g₃ []) m₃ (do
        let now ← Op.now
        if (w.deadlines started).query_start_deadline ≤ now then
          w.stopInvestigation "time_reserved_for_synthesis" else pure ()
        w.conclude (w.deadlines started) bound.row bound.plan fuel) (fun _ _ _ => True)
        fun _ st' => st'.Live := by
      refine Runs.still still_now ⟨g₃, rfl⟩ fun now _ => ?_
      have conclude : ∀ g' m', D.Runs (.working .running g' []) m'
          (w.conclude (w.deadlines started) bound.row bound.plan fuel) (fun _ _ _ => True)
          fun _ st' => st'.Live := fun g' m' =>
        (runs_conclude _ bound.row bound.plan fuel).mono (fun _ _ _ _ => trivial) fun _ _ h => h
      refine Runs.ite (fun _ => ?_) fun _ => conclude g₃ m₃
      refine Runs.bind ((runs_stopInvestigation _).mono (fun _ _ _ h => h) fun _ _ h => h.live) ?_
      intro _ m' st' ⟨g', hst'⟩
      rw [hst']
      exact conclude g' m'
    refine (hend h₃ hh₃).mono (fun _ _ _ _ => trivial) ?_
    intro e m' h' ⟨st', hl, hh⟩
    exact F.of_live hl hh

/-- **An attempt keeps its discipline**, if its queries do: started where the discipline is
ready, it is safe, and part of another attempt it leaves that one where it may fail. -/
theorem safe_execute_job (hq : D.RunsQueries) :
    ∀ (fuel : Nat) (live : Prop) (m : BudgetCounters) (h : History), D.holds .ready m h →
      (live → F.failed m h) →
      (w.execute_job fuel).Safe D.regime m h (fun _ _ _ => True) fun _ _ h' => live → F.failed m h' := by
  intro fuel
  induction fuel with
  | zero => exact fun _ _ _ _ _ => Proc.safe_halt
  | succ fuel ih =>
      intro live m h hr hl
      unfold Worker.execute_job
      refine Proc.Safe.seq (safe_enters F hr hl) ?_
      intro admitted m₁ h₁ hadm
      cases admitted with
      | none => exact Proc.safe_pure trivial
      | some bound =>
          have he := hadm bound rfl
          refine Proc.Safe.bind (Proc.safe_modify (Proc.Safe.handle (F := fun _ => F.failed) ?_ ?_))
          · by_cases hs : bound.row.state = .synthesizing
            · rw [if_pos hs]
              rcases he with ⟨hq', -⟩ | ⟨hrun, -⟩ | ⟨-, hdraft⟩
              · exact absurd (hs.symm.trans hq') (by decide)
              · exact absurd (hs.symm.trans hrun) (by decide)
              · exact hdraft bound.plan _
            · rw [if_neg hs]
              exact safe_runInvestigation F hq
                (fun m h hr hf => (ih True m h hr fun _ => hf).mono (fun _ _ _ h => h) fun _ _ _ h => h trivial)
                fuel he hs
          · intro e m' h' hf
            exact (F.handles e hf).mono (fun _ _ _ h => h) fun _ _ _ hdone _ => F.of_handled hdone

end Failures

/-! ### Disciplines whose end does not depend on the memory -/

/-- At its end, an attempt is not held to the counters in its memory. -/
structure Forgetful (D : Discipline w) : Prop where
  forget : ∀ {g m m' h}, D.holds (.ended g) m h → D.holds (.ended g) m' h
  arrive : ∀ {m now}, D.regime.Commits (.check_lease w.lease now) (D.holds .ready m) fun h =>
    ∃ g, D.holds (.ended g) m h
  enter_queued : ∀ {m h bound g₀ m₀}, D.regime.inv h → D.holds .ready m h → D.holds (.ended g₀) m₀ h →
    h.now.owned w.lease.owner_id w.lease.hunt_id = some bound.row → w.checkBindings bound.row = .ok bound →
    bound.row.state = .queued → ∃ g, D.holds (.working .queued g []) {} h
  enter_running : ∀ {m h bound g₀ m₀}, D.regime.inv h → D.holds .ready m h → D.holds (.ended g₀) m₀ h →
    h.now.owned w.lease.owner_id w.lease.hunt_id = some bound.row → w.checkBindings bound.row = .ok bound →
    bound.row.state = .running → ∃ g, D.View (bound.row.results.getD {}) g ∧
      D.holds (.working .running g []) (bound.row.results.getD {}).counters h

/-- Some stage of the attempt holds at which it has nothing left to do. -/
def Closed (D : Discipline w) (h : History) : Prop := ∃ g m, D.holds (.ended g) m h

theorem Closed.of_live {h : History} (hl : st.Live) (hst : D.holds st m h) : D.Closed h := by
  obtain ⟨g, hg⟩ := hl
  cases st with
  | ready => cases hg
  | working s g' ids => exact ⟨g', m, D.rest hst⟩
  | ended g' => exact ⟨g', m, hst⟩

theorem Closed.at_ (hf : D.Forgetful) {h : History} (hc : D.Closed h) (m : BudgetCounters) :
    ∃ g, D.holds (.ended g) m h := by
  obtain ⟨g, m', hst⟩ := hc
  exact ⟨g, hf.forget hst⟩

/-- The handler of a failed attempt. -/
theorem runs_executionFailed {g : D.Ghost} (e : Fault) :
    D.Runs (.ended g) m (w.executionFailed e) (fun _ _ _ => True) fun _ st' => st'.Live := by
  unfold Worker.executionFailed
  have hl := Stage.live_ended g
  refine Runs.bind (Q := fun _ _ st' => st'.Live) (Runs.handle (F := fun _ st' => st'.Live) ?_ ?_) ?_
  · refine Runs.still still_require_lease hl fun _ _ => Runs.still (still_row rfl) hl fun current hv => ?_
    refine Runs.ite (fun hstate => ?_) fun _ => Runs.pure hl
    refine Runs.get (Runs.still still_now hl fun updated _ => runs_update ?_ hl)
    intro h db hI hdb ha hst
    obtain ⟨hI', hg, g', hst'⟩ := D.fail hstate hv (by rfl) h db hI hdb ha hst
    exact ⟨hI', hg, _, Stage.live_ended g', hst'⟩
  · intro e' m' st' hl'
    split
    · exact Runs.pure hl'
    · exact Runs.pure hl'
    · exact Runs.raise hl'
  · exact fun _ m' st' hl' => Runs.raise hl'

/-- Under a forgetful discipline an attempt may fail wherever it has nothing left to do. -/
def Forgetful.failures (hf : D.Forgetful) : D.Failures where
  failed _ := D.Closed
  handled := D.Closed
  admitted := D.Closed
  of_live := Closed.of_live
  of_handled h := h
  stable {_ h h'} hr hI := by
    have closed : D.Closed h → D.Closed h' := fun ⟨g, m, hst⟩ => ⟨g, m, D.stable hr hI hst⟩
    exact ⟨closed, closed⟩
  reads := by
    intro m h now hI ha ⟨g, m', hst⟩
    obtain ⟨hI', hg, hst'⟩ := D.quiet (q := .now) trivial h now hI ha hst
    exact ⟨hI', hg, g, m', hst'⟩
  checks := by
    intro m now h s hI hs ha ⟨g, m', hst⟩
    obtain ⟨hI', hg, hst'⟩ := D.check h s hI hs ha hst
    exact ⟨hI', hg, g, m', hst'⟩
  arrive := by
    intro m now h s hI hs ha hr
    obtain ⟨hI', hg, g, hst⟩ := hf.arrive h s hI hs ha hr
    exact ⟨hI', hg, g, m, hst⟩
  enter_queued hI hr hc := by
    obtain ⟨g, m', hst⟩ := hc
    exact hf.enter_queued hI hr hst
  enter_running hI hr hc := by
    obtain ⟨g, m', hst⟩ := hc
    exact hf.enter_running hI hr hst
  unrecoverable _ hc _ _ _ := hc
  enter_synthesizing {h row plan results} _ hc _ _ := by
    obtain ⟨g, hst⟩ := hc.at_ hf {}
    refine (runs_draftReport row plan results h hst).mono (fun _ _ _ _ => trivial) ?_
    intro e m' h' ⟨st', hl', hh⟩
    exact .of_live hl' hh
  handles {m h} e hc := by
    obtain ⟨g, hst⟩ := hc.at_ hf m
    refine (runs_executionFailed e h hst).mono (fun _ _ _ _ => trivial) ?_
    intro e' m'' h'' ⟨st', hl', hh⟩
    exact .of_live hl' hh

end Attempt

end Discipline

end WorkflowService

end ThreatHunting
