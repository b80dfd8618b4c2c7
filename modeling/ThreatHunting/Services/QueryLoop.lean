import ThreatHunting.Services.Attempt

/-!
# ThreatHunting.Services.QueryLoop

The query loop under a discipline that does not follow single queries. `Roams` says that a
procedure may change what is stored but leaves the attempt at work on a running hunt; a
`Loose` discipline lets every part of `_run_checkpoint_queries` roam.
-/

namespace ThreatHunting

open Store Op
open Spl (QueryProposal QueryValidationResult SPLPolicy)

namespace WorkflowService

namespace Discipline

variable {w : Worker} {D : Discipline w} {α β : Type}

/-- A discipline that does not depend on the queries of an execution. -/
structure Loose (D : Discipline w) : Prop where
  ask : ∀ {s g ids m q}, (∀ contract repair, q ≠ .complete contract repair) →
    D.regime.Answers q (D.holds (.working s g ids) m) fun _ => D.holds (.working s g ids) m
  recount : ∀ {s g ids m m' h}, m'.model_calls = m.model_calls → m ≤ m' → D.holds (.working s g ids) m h →
    D.holds (.working s g ids) m' h
  /-- A checkpoint of the counters, whatever else it stores. -/
  store : ∀ {g ids m r at_ completed}, r.usage = some m →
    D.regime.Commits (w.write completed { state := some .running } { results := some r, updated_at_utc := at_ })
      (D.holds (.working .running g ids) m) fun h => ∃ g', D.View r g' ∧ D.holds (.working .running g' ids) m h

/-- From work on a running hunt, the procedure leads to work on a running hunt. -/
def Roams (D : Discipline w) (p : Op α) : Prop :=
  ∀ (st : Stage D.Ghost) (m : BudgetCounters), st.At .running →
    D.Runs st m p (fun _ _ st' => st'.At .running) fun _ st' => st'.At .running

namespace Roams

theorem pure (a : α) : D.Roams (Pure.pure a : Op α) := fun _ _ hat => Runs.pure hat

theorem raise (e : Fault) : D.Roams (Op.raise e : Op α) := fun _ _ hat => Runs.raise hat

theorem halt : D.Roams (Proc.halt : Op α) := fun _ _ _ => Runs.halt

theorem bind {p : Op α} {f : α → Op β} (hp : D.Roams p) (hf : ∀ a, D.Roams (f a)) : D.Roams (p >>= f) :=
  fun st m hat => Runs.bind (hp st m hat) fun a m' st' hat' => hf a st' m' hat'

theorem handle {p : Op α} {handler : Fault → Op α} (hp : D.Roams p) (he : ∀ e, D.Roams (handler e)) :
    D.Roams (p.handle handler) :=
  fun st m hat => Runs.handle (hp st m hat) fun e m' st' hat' => he e st' m' hat'

theorem ite {c : Prop} [Decidable c] {p q : Op α} (hp : D.Roams p) (hq : D.Roams q) :
    D.Roams (if c then p else q) :=
  fun st m hat => Runs.ite (fun _ => hp st m hat) fun _ => hq st m hat

theorem of_stays {still : Prop} {p : Op α} {P : α → Prop}
    (hp : ∀ g ids, D.Stays still (.working .running g ids) p P) : D.Roams p := by
  intro st m ⟨g, ids, hst⟩
  rw [hst]
  refine (hp g ids m).mono ?_ ?_
  · intro a m' st' ⟨_, hst', _⟩
    exact ⟨g, ids, hst'⟩
  · intro m' st' ⟨_, hst'⟩
    exact ⟨g, ids, hst'⟩

theorem get {f : BudgetCounters → Op β} (hf : ∀ m, D.Roams (f m)) : D.Roams (Proc.get >>= f) :=
  fun st m hat => Runs.get (hf m st m hat)

theorem now : D.Roams Op.now := of_stays fun _ _ => still_now

theorem raiseIf {c : Prop} [Decidable c] {e : Fault} : D.Roams (Op.raiseIf c e) := ite (raise e) (pure ())

theorem ofExcept (x : Except Fault α) : D.Roams (Op.ofExcept x) := by
  cases x with
  | ok a => exact pure a
  | error e => exact raise e

theorem ofOption (x : Option α) (e : Fault) : D.Roams (Op.ofOption x e) := by
  cases x with
  | some a => exact pure a
  | none => exact raise e

theorem collect {f : α → Op β} (hf : ∀ a, D.Roams (f a)) : ∀ as, D.Roams (Proc.collect f as)
  | [] => pure []
  | a :: as => (hf a).bind fun _ => (collect hf as).bind fun _ => pure _

theorem is_cancelled : D.Roams w.is_cancelled :=
  of_stays fun g _ => still_is_cancelled ⟨g, rfl⟩

theorem require_lease : D.Roams w.require_lease := of_stays fun _ _ => still_require_lease

theorem row : D.Roams w.row :=
  of_stays (P := fun _ => True) fun _ _ => (still_row rfl).mono fun _ _ => trivial

theorem on_rejected (proposal : QueryProposal) (query_id : Uuid) (v : QueryValidationResult) :
    D.Roams (w.on_rejected proposal query_id v) :=
  of_stays fun _ _ => still_persist_policy_rejections (.inr rfl) _

end Roams

theorem usage_record_submitted {query_id : Uuid} {sid : String} {at_ : Instant} {usage : BudgetCounters}
    {r r' : Results} (h : r.record_submitted query_id sid at_ usage = .ok r') : r'.usage = some usage := by
  unfold Results.record_submitted at h
  split at h
  · cases h
  · split at h
    · cases h
    · cases h
      rfl

theorem usage_record_completed {execution : QueryExecution} {proposal : QueryProposal}
    {evidence : List Evidence} {at_ : Instant} {usage : BudgetCounters} {r r' : Results}
    (h : r.record_completed execution proposal evidence at_ usage = .ok r') : r'.usage = some usage := by
  unfold Results.record_completed at h
  split at h
  · cases h
  · cases h
    rfl

theorem Roams.evidence_for_query (execution : QueryExecution) (proposal : QueryProposal) :
    D.Roams (w.evidence_for_query execution proposal) := by
  unfold Worker.evidence_for_query
  refine Roams.now.bind fun _ => Roams.collect (fun row => ?_) _
  exact (Roams.of_stays fun _ _ => still_uuid4).bind fun _ => (Roams.ofExcept _).bind fun _ => .pure _

section Loose

variable (hD : D.Loose)

include hD

theorem roams_ask {q : Ask} (hq : ∀ contract repair, q ≠ .complete contract repair) :
    D.Roams (Proc.ask (S := signature) q : Op _) := by
  intro st m ⟨g, ids, hst⟩ h hh
  rw [hst] at hh
  refine Proc.safe_ask ?_
  intro h' hr hI a ha
  obtain ⟨hI', hg, hh'⟩ := hD.ask hq h' a hI ha (D.stable hr hI hh)
  exact ⟨hI', hg, _, ⟨g, ids, rfl⟩, hh'⟩

theorem roams_modify (f : BudgetCounters → BudgetCounters) (hf : ∀ m, (f m).model_calls = m.model_calls)
    (hle : ∀ m, m ≤ f m) : D.Roams (Proc.modify f : Op Unit) := by
  intro st m ⟨g, ids, hst⟩ h hh
  rw [hst] at hh
  exact Proc.safe_modify ⟨_, ⟨g, ids, rfl⟩, hD.recount (hf m) (hle m) hh⟩

/-- A checkpoint of the counters in memory. -/
theorem runs_store {st : Stage D.Ghost} {m : BudgetCounters} {r : Results}
    (completed : Option QueryExecution) (hr : r.usage = some m) (hat : st.At .running) :
    D.Runs st m (w.checkpoint completed .running r) (fun _ _ st' => st'.At .running)
      fun _ st' => st'.At .running := by
  obtain ⟨g, ids, hst⟩ := hat
  rw [hst]
  unfold Worker.checkpoint
  refine Runs.still still_now ⟨g, ids, rfl⟩ fun updated _ => runs_update ?_ ⟨g, ids, rfl⟩
  intro h db hI hdb ha hh
  obtain ⟨hI', hg, g', _, hh'⟩ := hD.store hr h db hI hdb ha hh
  exact ⟨hI', hg, _, ⟨g', ids, rfl⟩, hh'⟩

/-! ### One query -/

theorem roams_cancel_after_sid (job_id : String) :
    D.Roams (ProductionHuntExecutor.cancel_after_sid job_id) :=
  (roams_ask hD (by simp)).bind fun _ => .pure ()

theorem roams_abort (job_id : Option String) (e : Fault) :
    D.Roams (ProductionHuntExecutor.abort job_id e : Op α) := by
  unfold ProductionHuntExecutor.abort
  have raised : D.Roams (do
      Proc.modify (·.record_failed_splunk_query)
      Op.raise e : Op α) := (roams_modify hD _ (fun m => by simp) (·.le_record_failed_splunk_query)).bind
    fun _ => .raise e
  cases job_id with
  | none => exact raised
  | some job_id => exact (roams_cancel_after_sid hD job_id).bind fun _ => raised

variable (policy : SPLPolicy) (open_ids : List String) (d : Worker.Deadlines)

theorem roams_awaitDone (job_id : String) (deadline : Instant) :
    ∀ fuel, D.Roams ((w.executor policy open_ids d).awaitDone job_id deadline fuel)
  | 0 => .halt
  | fuel + 1 => by
      unfold ProductionHuntExecutor.awaitDone
      refine Roams.is_cancelled.bind fun _ => Roams.raiseIf.bind fun _ => Roams.now.bind fun _ => ?_
      refine Roams.raiseIf.bind fun _ => (roams_ask hD (q := .status job_id) (by simp)).bind fun _ => ?_
      refine (Roams.ofExcept _).bind fun status => ?_
      split
      · exact .raise _
      · exact .pure _
      · exact roams_awaitDone job_id deadline fuel

theorem roams_fetchPage (job_id : String) (deadline : Instant) (page page_size max_bytes : Nat) :
    D.Roams (ProductionHuntExecutor.fetchPage job_id deadline page page_size max_bytes) := by
  unfold ProductionHuntExecutor.fetchPage
  refine Roams.now.bind fun _ => Roams.raiseIf.bind fun _ => Roams.now.bind fun _ => ?_
  refine (roams_ask hD (q := .fetch_results job_id page page_size max_bytes) (by simp)).bind fun _ => ?_
  exact (Roams.ofExcept _).bind fun _ => Roams.now.bind fun _ => Roams.raiseIf.bind fun _ => .pure _

theorem roams_pageFailed (limits : QueryLimits) (r : Retrieval) (e : Fault) :
    D.Roams (ProductionHuntExecutor.pageFailed limits r e) := by
  unfold ProductionHuntExecutor.pageFailed
  split
  · exact .pure _
  · exact .ite (.raise _) ((roams_modify hD _ (fun m => by simp) (·.le_record_failed_splunk_query)).bind
      fun _ => .pure _)
  · exact .raise _

theorem roams_fetchPages (job_id : String) (deadline : Instant) (limits : QueryLimits) (page_size : Nat)
    (available_count : Option Nat) :
    ∀ turns r, D.Roams
      (ProductionHuntExecutor.fetchPages job_id deadline limits page_size available_count turns r)
  | 0, _ => .pure _
  | turns + 1, r => by
      unfold ProductionHuntExecutor.fetchPages
      refine .ite (.pure _) (Roams.bind (Roams.handle ?_ fun e => roams_pageFailed hD limits r e) fun (_, r) => ?_)
      · exact (roams_fetchPage hD job_id deadline _ _ _).bind fun _ => .pure _
      · refine .ite (.pure _) ((Roams.ofExcept _).bind fun r => .ite (.pure _) (.ite ?_ ?_))
        · exact .ite (.pure _) (.pure _)
        · exact roams_fetchPages job_id deadline limits page_size available_count turns r

theorem roams_retrieve (job_id : String) (deadline : Instant) (limits : QueryLimits) (fuel : Nat) :
    D.Roams ((w.executor policy open_ids d).retrieve job_id deadline limits fuel) := by
  unfold ProductionHuntExecutor.retrieve
  refine (roams_awaitDone hD policy open_ids d job_id deadline fuel).bind fun _ => Roams.now.bind fun _ => ?_
  refine Roams.raiseIf.bind fun _ => (roams_fetchPages hD job_id deadline limits _ _ _ _).bind fun _ => .pure _

theorem roams_on_submitted (query_id : Uuid) (sid : String) (proposal : QueryProposal) :
    D.Roams (w.on_submitted query_id sid proposal) := by
  unfold Worker.on_submitted Worker.raiseIfCancelled
  refine (Roams.is_cancelled.bind fun _ => Roams.raiseIf).bind fun _ => Roams.require_lease.bind fun _ => ?_
  refine Roams.row.bind fun current => Roams.now.bind fun submitted_at => ?_
  intro st m hat
  refine Runs.get ?_
  cases hr : (current.results.getD {}).record_submitted query_id sid submitted_at m with
  | error e => exact Runs.raise hat
  | ok r => exact runs_store hD none (usage_record_submitted hr) hat

theorem roams_start (proposal : QueryProposal) (query_id : Uuid) (v : QueryValidationResult)
    (deadline : Instant) : D.Roams ((w.executor policy open_ids d).start proposal query_id v deadline) := by
  unfold ProductionHuntExecutor.start
  refine Roams.now.bind fun _ => Roams.raiseIf.bind fun _ => Roams.get fun _ => Roams.raiseIf.bind fun _ => ?_
  refine (roams_modify hD (·.record_splunk_query) (fun _ => rfl) (·.le_record_splunk_query)).bind fun _ => ?_
  refine Roams.bind (Roams.handle ?_ fun e => roams_abort hD none e) fun job_id => ?_
  · exact (roams_ask hD (by simp)).bind fun _ => Roams.ofExcept _
  · refine Roams.bind (Roams.handle (roams_on_submitted hD query_id job_id proposal) fun e => ?_) fun _ => .pure _
    exact roams_abort hD (some job_id) e

theorem roams_execute_query (fuel : Nat) (proposal : QueryProposal) (query_id : Uuid)
    (job : Option String) (submitted_at : Option Instant) :
    D.Roams ((w.executor policy open_ids d).execute_query fuel proposal query_id job submitted_at) := by
  unfold ProductionHuntExecutor.execute_query
  refine (Roams.of_stays fun _ _ => still_uuid4).bind fun _ => (Roams.ofExcept _).bind fun v => .ite ?_ ?_
  · refine Roams.bind ?_ fun _ => .raise _
    exact Roams.on_rejected proposal _ v
  refine Roams.get fun _ => Roams.raiseIf.bind fun _ => ?_
  refine Roams.bind (Roams.bind ?_ fun _ => .pure _) fun deadline => ?_
  · cases submitted_at with
    | some submitted => exact .pure _
    | none => exact .now
  refine Roams.bind ?_ fun job_id => ?_
  · cases job with
    | some job_id => exact .pure _
    | none => exact roams_start hD policy open_ids d proposal query_id v deadline
  refine Roams.bind (Roams.handle (roams_retrieve hD policy open_ids d job_id deadline _ fuel) fun e => ?_)
    fun (_, r) => ?_
  · exact roams_abort hD (some job_id) e
  · exact (roams_modify hD (·.record_result _ _) (fun _ => rfl) (·.le_record_result _ _)).bind fun _ => .pure _

/-! ### The loop -/

theorem roams_execute_entry (fuel : Nat) (entry : LedgerEntry) :
    D.Roams (Worker.execute_entry (w.executor policy open_ids d) d fuel entry) := by
  unfold Worker.execute_entry
  refine Roams.bind (.ite (Roams.now.bind fun _ => .pure _) (.pure _)) fun cutoff => .ite (.pure _) ?_
  refine (Roams.ofExcept _).bind fun job => Roams.handle ?_ fun e => ?_
  · exact (roams_execute_query hD policy open_ids d fuel _ _ _ _).bind fun _ => .pure _
  · split
    · exact .pure _
    · exact .raise _

theorem roams_run_checkpoint_query (fuel position : Nat) :
    D.Roams (w.run_checkpoint_query (w.executor policy open_ids d) d fuel position) := by
  unfold Worker.run_checkpoint_query
  refine Roams.row.bind fun _ => (Roams.ofOption _ _).bind fun entry => .ite (.pure _) ?_
  refine (roams_execute_entry hD policy open_ids d fuel entry).bind fun outcome => ?_
  cases outcome with
  | stopped status =>
      unfold Worker.checkpoint_stopped
      refine Roams.require_lease.bind fun _ => Roams.row.bind fun _ => Roams.now.bind fun _ => ?_
      intro st m hat
      exact Runs.get (runs_store hD none rfl hat)
  | executed execution =>
      unfold Worker.checkpoint_completed
      refine (Roams.evidence_for_query execution _).bind fun evidence => Roams.require_lease.bind fun _ => ?_
      refine Roams.row.bind fun current => Roams.now.bind fun completed_at => ?_
      intro st m hat
      refine Runs.get ?_
      cases hr : (current.results.getD {}).record_completed execution entry.proposal evidence completed_at m with
      | error e => exact Runs.raise hat
      | ok r => exact runs_store hD _ (usage_record_completed hr) hat

omit hD in
/-- A loose discipline lets the query loop run. -/
theorem Loose.runsQueries (hD : D.Loose) : D.RunsQueries := by
  intro plan header payload open_ids started fuel g m r _ _
  have loop : D.Roams (w.run_checkpoint_queries (w.executor (w.policy plan header payload) open_ids
      (w.deadlines started)) (w.deadlines started) fuel) := by
    unfold Worker.run_checkpoint_queries
    refine Roams.row.bind fun _ => Roams.bind (Roams.collect (fun position => ?_) _) fun _ => .pure _
    exact roams_run_checkpoint_query hD _ open_ids _ fuel position
  intro h hst
  refine (loop _ m ⟨g, [], rfl⟩ h hst).mono ?_ ?_
  · intro _ m' h' ⟨st', ⟨g', ids, hst'⟩, hh⟩
    rw [hst'] at hh
    exact ⟨_, ⟨g', rfl⟩, D.unmint (List.nil_sublist ids) hh⟩
  · intro e m' h' ⟨st', hat, hh⟩
    exact ⟨st', hat.live, hh⟩

end Loose

end Discipline

end WorkflowService

end ThreatHunting
