import ThreatHunting.Services.FollowUps
import ThreatHunting.Spl.Verdicts

/-!
# ThreatHunting.Services.FollowUpPlanning

What a round of follow-up planning adds to the ledger and to the decisions. The loop over the proposals carries the
searches seen so far; a search is added only if no earlier one has its identity, and then it is one of those seen. The
contract of the decisions and the repair of the rejected ones together leave one decision for each question, which is
recorded once, whether its search is planned or skipped.
-/

namespace ThreatHunting

open Fallible

namespace FollowUps

open Spl (QueryProposal QueryValidationResult SPLPolicy)
open ThreatIntel (Raised)
open WorkflowService.Worker (ordered planFollowUps decisionRecord rejections FollowUps SearchIdentity)

namespace Batch

variable {py : LeadSessions.Interpreter} {b : Batch}

/-! ### Runs -/

section Runs

variable {α β : Type} {x : Planning α} {f : α → Planning β} {s s' : Results}

theorem run_bind (s : Results) : (x >>= f).run s = match x.run s with
    | (.ok a, s₁) => (f a).run s₁
    | (.error e, s₁) => (.error e, s₁) := by
  rw [ExceptT.run_bind]
  simp only [bind, StateT.bind]
  rcases ExceptT.run x s with ⟨_ | _, _⟩ <;> rfl

/-- A sequence that succeeds has two parts that do. -/
theorem run_bind_eq_ok {c : β} :
    (x >>= f).run s = (.ok c, s') ↔ ∃ a s₁, x.run s = (.ok a, s₁) ∧ (f a).run s₁ = (.ok c, s') := by
  rw [run_bind]
  rcases ExceptT.run x s with ⟨e | a, s₁⟩
  · exact iff_of_false (fun h => by cases h) fun ⟨_, _, h, _⟩ => by cases h
  · refine ⟨fun h => ⟨a, s₁, rfl, h⟩, ?_⟩
    intro ⟨_, _, h, h'⟩
    cases h
    exact h'

/-- A computation that does not look at the document is followed by the run from the same one. -/
theorem run_liftM_bind_eq_ok {e : Except Raised α} {c : β} :
    ((liftM e : Planning α) >>= f).run s = (.ok c, s') ↔ ∃ a, e = .ok a ∧ (f a).run s = (.ok c, s') := by
  rw [run_bind_eq_ok]
  constructor
  · intro ⟨a, s₁, he, h⟩
    have he : (e, s) = (.ok a, s₁) := he
    cases he
    exact ⟨a, rfl, h⟩
  · intro ⟨a, he, h⟩
    subst he
    exact ⟨a, s, rfl, h⟩

theorem run_pure_eq_ok {a c : α} : (pure a : Planning α).run s = (.ok c, s') ↔ a = c ∧ s = s' := by
  show ((.ok a : Except Raised α), s) = (.ok c, s') ↔ _
  simp

end Runs

/-! ### Decisions -/

/-- Two decisions on one question, whose proposals name it. -/
structure Kept (d d' : FollowUpDecision) : Prop where
  question_id : d'.question_id = d.question_id
  named : (∀ p ∈ d.proposal, p.question_id = d.question_id.toList) → ∀ p ∈ d'.proposal, p.question_id = d'.question_id.toList

theorem Kept.refl (d : FollowUpDecision) : Kept d d := ⟨rfl, id⟩

theorem widenDecision_kept {sessions : List LeadSessions.LeadSession} {d d' : FollowUpDecision}
    (h : b.widenDecision py sessions d = .ok d') : Kept d d' := by
  rw [widenDecision] at h
  split at h
  · cases h
    exact .refl d
  next proposal hproposal =>
    split at h
    · cases h
      exact .refl d
    · split at h
      · cases h
        refine ⟨rfl, fun hnamed p hp => ?_⟩
        obtain rfl := Option.mem_some_iff.mp hp
        exact hnamed proposal hproposal
      · cases h

theorem widen_kept {ds ds' : List FollowUpDecision} (h : b.widen py ds = .ok ds') : List.Forall₂ Kept ds ds' := by
  obtain ⟨sessions, -, h⟩ := bind_eq_ok.mp h
  split at h
  · cases h
    exact List.forall₂_same.mpr fun d _ => .refl d
  · exact (forall₂_of_mapM h).imp fun d d' hd => widenDecision_kept hd

/-- The decisions name the questions of the batch, one after the other, and so do their proposals. -/
structure Answers (ids : List String) (ds : List FollowUpDecision) : Prop where
  question_ids : ds.map (·.question_id) = ids
  named : ∀ d ∈ ds, ∀ p ∈ d.proposal, p.question_id = d.question_id.toList

theorem Answers.kept {ids : List String} {ds ds' : List FollowUpDecision} (h : Answers ids ds)
    (hkept : List.Forall₂ Kept ds ds') : Answers ids ds' := by
  obtain ⟨rfl, hnamed⟩ := h
  induction hkept with
  | nil => exact ⟨rfl, by simp⟩
  | @cons d d' ds ds' hd _ ih =>
      rw [List.forall_mem_cons] at hnamed
      obtain ⟨hids, hrest⟩ := ih hnamed.2
      exact ⟨by rw [List.map_cons, List.map_cons, hids, hd.question_id],
        List.forall_mem_cons.mpr ⟨hd.named hnamed.1, hrest⟩⟩

/-- Decisions that name every question are put into the order of the questions. -/
theorem answers_ordered {ids : List String} {ds : List FollowUpDecision} (hids : ∀ id ∈ ids, id ∈ ds.map (·.question_id))
    (hnamed : ∀ d ∈ ds, ∀ p ∈ d.proposal, p.question_id = d.question_id.toList) : Answers ids (ordered ids ds) := by
  have hfound : ∀ id ∈ ids, ∃ d ∈ ds, ds.find? (·.question_id = id) = some d ∧ d.question_id = id := by
    intro id hid
    obtain ⟨d, hd, hname⟩ := List.mem_map.mp (hids id hid)
    have hsome : (ds.find? (·.question_id = id)).isSome := List.find?_isSome.mpr ⟨d, hd, by simpa using hname⟩
    obtain ⟨found, hfind⟩ := Option.isSome_iff_exists.mp hsome
    exact ⟨found, List.mem_of_find?_eq_some hfind, hfind, by simpa using List.find?_some hfind⟩
  clear hids
  induction ids with
  | nil => exact ⟨rfl, by simp [ordered]⟩
  | cons id ids ih =>
      rw [List.forall_mem_cons] at hfound
      obtain ⟨d, hd, hfind, hname⟩ := hfound.1
      obtain ⟨hrest, hothers⟩ := ih hfound.2
      rw [ordered, List.filterMap_cons, hfind]
      exact ⟨by rw [List.map_cons, hname]; exact congrArg _ hrest, List.forall_mem_cons.mpr ⟨hnamed d hd, hothers⟩⟩

theorem named_of_accepts {ids : List String} {ds : List FollowUpDecision}
    (h : Contract.accepts (.follow_up_decisions ids) ds = true) :
    ∀ d ∈ ds, ∀ p ∈ d.proposal, p.question_id = d.question_id.toList := by
  simp only [Contract.accepts, Bool.and_eq_true, List.all_eq_true] at h
  intro d hd p hp
  have hformed := h.1.1 d hd
  rw [decisionWellFormed, Option.mem_def.mp hp] at hformed
  cases hskip : d.skip_reason with
  | none =>
      rw [hskip] at hformed
      simp only [Bool.and_eq_true, decide_eq_true_eq] at hformed
      exact hformed.2
  | some reason =>
      rw [hskip] at hformed
      cases hformed

theorem mem_of_accepts {ids : List String} {ds : List FollowUpDecision}
    (h : Contract.accepts (.follow_up_decisions ids) ds = true) : ∀ id ∈ ids, id ∈ ds.map (·.question_id) := by
  simp only [Contract.accepts, Bool.and_eq_true, sameSet, List.all_eq_true, decide_eq_true_eq] at h
  exact h.2.2

/-! ### Questions -/

/-- The questions of a batch are different ones. -/
theorem nodup_follow_up_ids (b : Batch) : b.follow_up_ids.Nodup := by
  have hloop : ∀ (questions pending : List Question), (pending.map (·.question_id)).Nodup →
      ((questions.foldl (fun pending q =>
        if pending.any (·.question_id = q.question_id) then pending else pending ++ [q]) pending).map
          (·.question_id)).Nodup := by
    intro questions
    induction questions with
    | nil => exact fun _ h => h
    | cons q questions ih =>
        intro pending h
        rw [List.foldl_cons]
        refine ih _ ?_
        split
        · exact h
        next hnew =>
          simp only [List.any_eq_true, decide_eq_true_eq, not_exists, not_and] at hnew
          rw [List.map_append, List.map_singleton, ← List.concat_eq_append, List.nodup_concat]
          refine ⟨fun hmem => ?_, h⟩
          obtain ⟨p, hp, hname⟩ := List.mem_map.mp hmem
          exact hnew p hp hname
  have hall : ((pending_investigation_questions b.plan b.results b.follow_up_questions).map (·.question_id)).Nodup :=
    hloop _ [] List.nodup_nil
  exact List.Nodup.sublist ((List.take_sublist _ _).map _) hall

/-- Each of them is a question of the plan, a stored one, or one of the round. -/
theorem mem_follow_up_ids {id : String} (h : id ∈ b.follow_up_ids) : id ∈ b.open_question_ids ∨
    id ∈ b.results.follow_up_questions.map (·.question_id) ∨ id ∈ b.follow_up_questions.map (·.question_id) := by
  have hloop : ∀ (questions pending : List Question), ∀ q ∈ questions.foldl (fun pending q =>
      if pending.any (·.question_id = q.question_id) then pending else pending ++ [q]) pending,
      q ∈ pending ∨ q ∈ questions := by
    intro questions
    induction questions with
    | nil => exact fun _ _ h => .inl h
    | cons q questions ih =>
        intro pending p hp
        rw [List.foldl_cons] at hp
        rcases ih _ p hp with hmem | hmem
        · split at hmem
          · exact .inl hmem
          · rcases List.mem_append.mp hmem with hmem | hmem
            · exact .inl hmem
            · exact .inr (List.mem_cons.mpr (.inl (List.mem_singleton.mp hmem)))
        · exact .inr (List.mem_cons_of_mem _ hmem)
  obtain ⟨q, hq, rfl⟩ := List.mem_map.mp h
  have hmem := (hloop _ [] q (List.mem_of_mem_take hq)).resolve_left List.not_mem_nil
  rcases List.mem_append.mp (List.mem_filter.mp hmem).1 with hmem | hmem
  · rcases List.mem_append.mp hmem with hmem | hmem
    · obtain ⟨p, hp, rfl⟩ := List.mem_map.mp hmem
      exact .inl (List.mem_map.mpr ⟨p, hp, rfl⟩)
    · exact .inr (.inl (List.mem_map_of_mem hmem))
  · exact .inr (.inr (List.mem_map_of_mem hmem))

/-! ### Deciding -/

/-- What planning reads of a document is not changed by recording rejections. -/
structure SameWork (s s' : Results) : Prop where
  ledger : s'.ledger = s.ledger
  follow_up_questions : s'.follow_up_questions = s.follow_up_questions
  follow_up_decisions : s'.follow_up_decisions = s.follow_up_decisions

theorem SameWork.refl (s : Results) : SameWork s s := ⟨rfl, rfl, rfl⟩

theorem run_persist {rejected : List PolicyRejection} {s s' : Results}
    (h : (persist_policy_rejections rejected).run s = (.ok (), s')) : SameWork s s' := by
  rw [persist_policy_rejections] at h
  split at h
  · obtain ⟨-, rfl⟩ := run_pure_eq_ok.mp h
    exact .refl s
  · cases h
    exact ⟨rfl, rfl, rfl⟩

/-- The decisions a round arrives at are one for each question. -/
theorem run_decide {uuid : Nat → Uuid} {answered : List FollowUpDecision} {repair : List String → List FollowUpDecision}
    (hanswered : Contract.accepts (.follow_up_decisions b.follow_up_ids) answered = true)
    (hrepair : ∀ ids, Contract.accepts (.follow_up_decisions ids) (repair ids) = true) {s s' : Results}
    {ds : List FollowUpDecision} (h : (b.decisions py uuid answered repair).run s = (.ok ds, s')) :
    Answers b.follow_up_ids ds ∧ SameWork s s' := by
  obtain ⟨pass, hfirstPass, h⟩ := run_liftM_bind_eq_ok.mp h
  obtain ⟨decisions, hwiden, hchecked⟩ := bind_eq_ok.mp hfirstPass
  have hfirst : Answers b.follow_up_ids decisions :=
    (answers_ordered (mem_of_accepts hanswered) (named_of_accepts hanswered)).kept (widen_kept hwiden)
  have hdecisions : pass.decisions = decisions := by
    obtain ⟨errors, -, hchecked⟩ := bind_eq_ok.mp hchecked
    obtain ⟨validated, -, hchecked⟩ := bind_eq_ok.mp hchecked
    cases hchecked
    rfl
  rw [← hdecisions] at hfirst
  split at h
  · obtain ⟨rfl, rfl⟩ := run_pure_eq_ok.mp h
    exact ⟨hfirst, .refl _⟩
  · obtain ⟨_, s₂, hpersist, h⟩ := run_bind_eq_ok.mp h
    obtain ⟨merged, hwiden', h⟩ := run_liftM_bind_eq_ok.mp h
    obtain ⟨errors, -, h⟩ := run_liftM_bind_eq_ok.mp h
    split at h
    · obtain ⟨rfl, rfl⟩ := run_pure_eq_ok.mp h
      refine ⟨(answers_ordered (fun id hid => ?_) fun d hd => ?_).kept (widen_kept hwiden'), run_persist hpersist⟩
      · -- a question is among the rejected ones, which are repaired, or its decision was accepted
        rw [List.map_append, List.mem_append]
        by_cases hrejected : id ∈ pass.rejected_ids
        · have hid : id ∈ b.repair_ids pass := List.mem_filter.mpr ⟨hid, by simpa using hrejected⟩
          exact .inl (mem_of_accepts (hrepair _) id hid)
        · rw [← hfirst.question_ids] at hid
          obtain ⟨d, hd, rfl⟩ := List.mem_map.mp hid
          exact .inr (List.mem_map_of_mem (List.mem_filter.mpr ⟨hd, by simpa using hrejected⟩))
      · rcases List.mem_append.mp hd with hd | hd
        · exact named_of_accepts (hrepair _) d hd
        · exact hfirst.named d (List.mem_filter.mp hd).1
    · obtain ⟨_, _, _, h⟩ := run_bind_eq_ok.mp h
      cases h

/-! ### Planning -/

/-- The identity of a judged proposal. -/
def identityOf (x : QueryProposal × Uuid × QueryValidationResult) : SearchIdentity :=
  (x.2.2.cache_key.getD [], x.1.result_mode)

/-- The entry that a judged proposal is planned as. -/
def entryOf (x : QueryProposal × Uuid × QueryValidationResult) : LedgerEntry := .plan x.2.1 x.1 .adaptive_follow_up

/-- The loop plans some of the allowed proposals, in their order, each of an identity that is new. -/
theorem planFollowUps_planned (validated : List (QueryProposal × Uuid × QueryValidationResult)) :
    ∀ seen : List (SearchIdentity × String), ∃ planned : List (QueryProposal × Uuid × QueryValidationResult),
      (planFollowUps validated seen).ledger = planned.map entryOf ∧
      planned.Sublist validated ∧ (∀ x ∈ planned, x.2.2.allowed = true) ∧
        (∀ x ∈ planned, identityOf x ∉ seen.map (·.1)) ∧ planned.Pairwise fun x y => identityOf x ≠ identityOf y := by
  induction validated with
  | nil => exact fun seen => ⟨[], rfl, .refl _, by simp, by simp, .nil⟩
  | cons x validated ih =>
      intro seen
      obtain ⟨proposal, query_id, v⟩ := x
      unfold planFollowUps
      have hskip : ∃ planned : List (QueryProposal × Uuid × QueryValidationResult),
          (planFollowUps validated seen).ledger = planned.map entryOf ∧
          planned.Sublist ((proposal, query_id, v) :: validated) ∧ (∀ x ∈ planned, x.2.2.allowed = true) ∧
            (∀ x ∈ planned, identityOf x ∉ seen.map (·.1)) ∧ planned.Pairwise fun x y => identityOf x ≠ identityOf y := by
        obtain ⟨planned, hledger, hsub, hrest⟩ := ih seen
        exact ⟨planned, hledger, hsub.cons _, hrest⟩
      split
      · exact hskip
      next hallowed =>
        simp only
        split
        · exact hskip
        next hnew =>
          have hfresh : identityOf (proposal, query_id, v) ∉ seen.map (·.1) := by
            intro hmem
            obtain ⟨known, hknown, hsame⟩ := List.mem_map.mp hmem
            have hnone := List.find?_eq_none.mp hnew known (List.mem_reverse.mpr hknown)
            exact hnone (by simpa [identityOf] using hsame)
          obtain ⟨planned, hledger, hsub, hallowed', hfresh', hapart⟩ :=
            ih (seen ++ [(identityOf (proposal, query_id, v), "planned question " ++ String.ofList proposal.question_id)])
          simp only [List.map_append, List.map_singleton, List.mem_append, List.mem_singleton, not_or] at hfresh'
          refine ⟨(proposal, query_id, v) :: planned, ?_, hsub.cons_cons _, ?_, ?_, ?_⟩
          · rw [List.map_cons, ← hledger]
            rfl
          · exact List.forall_mem_cons.mpr ⟨by simpa using hallowed, hallowed'⟩
          · exact List.forall_mem_cons.mpr ⟨hfresh, fun y hy => (hfresh' y hy).1⟩
          · exact List.pairwise_cons.mpr ⟨fun y hy => Ne.symm (hfresh' y hy).2, hapart⟩

/-- A judged proposal is one of the batch, with its verdict. -/
theorem judge_of_mem_validated {uuid : Nat → Uuid} {proposals : List QueryProposal}
    {validated : List (QueryProposal × Uuid × QueryValidationResult)} (h : b.validated py uuid proposals = .ok validated)
    {x : QueryProposal × Uuid × QueryValidationResult} (hx : x ∈ validated) :
    x.1 ∈ proposals ∧ b.judge py (some b.allowed_question_ids) x.1 = .ok x.2.2 := by
  obtain ⟨⟨proposal, n⟩, hmem, hx⟩ := (mem_of_mapM h).1 x hx
  obtain ⟨v, hv, hx⟩ := bind_eq_ok.mp hx
  cases hx
  exact ⟨(List.mem_zipIdx' hmem).2 ▸ List.getElem_mem _, hv⟩

theorem judge_eq_ok {ids : Option (List String)} {proposal : QueryProposal} {v : QueryValidationResult} :
    b.judge py ids proposal = .ok v ↔
      b.policy.validate py.db b.cache_digest proposal (ids.map (·.map (·.toList))) = .ok v := by
  rw [judge]
  cases b.policy.validate py.db b.cache_digest proposal (ids.map (·.map (·.toList))) with
  | ok v' => simp
  | error e => cases e <;> simp

/-- What is allowed with some questions open is allowed with any that its own is among, and has an identity. -/
theorem judge_allowed {ids : List String} {proposal : QueryProposal} {v : QueryValidationResult}
    (h : b.judge py (some ids) proposal = .ok v) (hallowed : v.allowed = true) :
    (∀ ids', proposal.question_id ∈ ids'.map (·.toList) → b.judge py (some ids') proposal = .ok v) ∧
      b.searchIdentity py proposal = .ok (some (v.cache_key.getD [], proposal.result_mode)) := by
  have hv := judge_eq_ok.mp h
  rw [Option.map_some] at hv
  obtain ⟨v', hv', hformed⟩ := SPLPolicy.validate_judges py.db b.cache_digest b.policy proposal (some (ids.map (·.toList)))
  obtain rfl : v = v' := Except.ok.inj (hv.symm.trans hv')
  refine ⟨fun ids' hopen => judge_eq_ok.mpr (SPLPolicy.validate_reopened hv hallowed hopen), ?_⟩
  have hnone : b.judge py none proposal = .ok v :=
    judge_eq_ok.mpr ((SPLPolicy.validate_of_open (SPLPolicy.mem_open_of_allowed hv hallowed)).symm.trans hv)
  obtain ⟨key, hkey⟩ := Option.isSome_iff_exists.mp (hformed.cache_key_iff.mpr hallowed)
  rw [searchIdentity, hnone, ok_bind, hallowed, hkey]
  rfl

/-- The searches that are seen have the identities of the completed ones. -/
theorem mem_seenQueries {seen : List (SearchIdentity × String)} (h : b.seenQueries py = .ok seen) {entry : LedgerEntry}
    (hentry : entry ∈ b.results.ledger) (hcompleted : entry.query_id ∈ b.completed_query_ids) {identity : SearchIdentity}
    (hidentity : b.searchIdentity py entry.proposal = .ok (some identity)) : identity ∈ seen.map (·.1) := by
  obtain ⟨found, hfound, h⟩ := bind_eq_ok.mp h
  cases h
  obtain ⟨x, hx, hentry⟩ := (mem_of_mapM hfound).2 entry (List.mem_filter.mpr ⟨hentry, by simpa using hcompleted⟩)
  rw [hidentity, ok_bind] at hentry
  cases hentry
  exact List.mem_map.mpr ⟨_, List.mem_filterMap.mpr ⟨_, hx, rfl⟩, rfl⟩

/-! ### The round -/

/-- What a round of planning adds to a document. -/
structure Adds (py : LeadSessions.Interpreter) (b : Batch) (stored : Results) (added : List LedgerEntry) : Prop where
  ledger : stored.ledger = b.results.ledger ++ added
  /-- An added search is none that was completed when planning began. -/
  new : ∀ e ∈ added, ∃ identity, b.searchIdentity py e.proposal = .ok (some identity) ∧
    ∀ c ∈ b.results.ledger, c.query_id ∈ b.completed_query_ids →
      b.searchIdentity py c.proposal ≠ .ok (some identity)
  /-- No two added searches are the same. -/
  distinct : added.Pairwise fun e e' => b.searchIdentity py e.proposal ≠ b.searchIdentity py e'.proposal
  /-- The policy allows each of them again with the questions that are open when it is executed. -/
  admissible : ∀ e ∈ added, ∃ v, b.judge py (some (b.runtime_question_ids stored)) e.proposal = .ok v ∧ v.allowed = true
  /-- For each question of the batch one decision is recorded. -/
  decided : ∃ records, stored.follow_up_decisions = b.results.follow_up_decisions ++ records ∧
    ∀ q ∈ b.questions, records.countP (·.question_id = q.question_id) = 1

theorem question_id_decisionRecord (duplicates : List (String × String)) (completed_ids : List Uuid) (d : FollowUpDecision) :
    (decisionRecord duplicates completed_ids d).question_id = d.question_id := by
  rw [decisionRecord]
  split <;> rfl

theorem adds_of_planRound {uuid : Nat → Uuid} {s s' : Results} {ds : List FollowUpDecision} {planned : Results × String}
    (hds : Answers b.follow_up_ids ds) (hs : SameWork b.results s)
    (h : (b.planRound py uuid ds).run s = (.ok planned, s')) : ∃ added, Adds py b (b.finish planned) added := by
  obtain ⟨seen, hseenQueries, h⟩ := run_liftM_bind_eq_ok.mp h
  obtain ⟨validated, hjudgements, h⟩ := run_liftM_bind_eq_ok.mp h
  obtain ⟨chosen, hledger, hsub, hallowed, hnew, hapart⟩ := planFollowUps_planned validated seen
  have hjudged : ∀ x ∈ chosen, x.1.question_id ∈ b.follow_up_ids.map (·.toList) ∧
      b.judge py (some b.allowed_question_ids) x.1 = .ok x.2.2 := by
    intro x hx
    obtain ⟨hmem, hjudge⟩ := judge_of_mem_validated hjudgements (hsub.subset hx)
    obtain ⟨d, hd, hproposal⟩ := List.mem_filterMap.mp hmem
    refine ⟨?_, hjudge⟩
    rw [hds.named d hd x.1 hproposal, ← hds.question_ids]
    exact List.mem_map_of_mem (List.mem_map_of_mem hd)
  have hidentity : ∀ x ∈ chosen, b.searchIdentity py x.1 = .ok (some (identityOf x)) := fun x hx =>
    (judge_allowed (hjudged x hx).2 (hallowed x hx)).2
  dsimp only at h
  split at h
  · obtain ⟨current, s₃, hcurrent, h⟩ := run_bind_eq_ok.mp h
    cases hcurrent
    obtain ⟨rfl, rfl⟩ := run_pure_eq_ok.mp h
    refine ⟨chosen.map entryOf, ?_, ?_, ?_, ?_, ?_⟩
    · show s.ledger ++ _ = _
      rw [hs.ledger, hledger]
    · intro e he
      obtain ⟨x, hx, rfl⟩ := List.mem_map.mp he
      refine ⟨identityOf x, hidentity x hx, fun c hc hcompleted hsame => ?_⟩
      exact hnew x hx (mem_seenQueries hseenQueries hc hcompleted hsame)
    · refine List.pairwise_map.mpr (hapart.imp_of_mem fun {x y} hx hy hne hsame => hne ?_)
      have heq := (hidentity x hx).symm.trans (hsame.trans (hidentity y hy))
      exact Option.some.inj (Except.ok.inj heq)
    · intro e he
      obtain ⟨x, hx, rfl⟩ := List.mem_map.mp he
      obtain ⟨hid, hjudge⟩ := hjudged x hx
      refine ⟨x.2.2, (judge_allowed hjudge (hallowed x hx)).1 _ ?_, hallowed x hx⟩
      obtain ⟨id, hid, hname⟩ := List.mem_map.mp hid
      refine List.mem_map.mpr ⟨id, ?_, hname⟩
      have hstored : (b.finish ({ s.plan_queries (planFollowUps validated seen).ledger with
          follow_up_decisions := (s.plan_queries (planFollowUps validated seen).ledger).follow_up_decisions ++
            ds.map (decisionRecord (planFollowUps validated seen).duplicates b.completed_query_ids) },
          if (planFollowUps validated seen).ledger.isEmpty then "no_follow_up_query"
            else "follow_up_planned")).follow_up_questions =
          b.results.follow_up_questions ++ b.follow_up_questions := by
        show s.follow_up_questions ++ _ = _
        rw [hs.follow_up_questions]
      rw [runtime_question_ids, hstored, List.map_append, List.mem_append, List.mem_append]
      exact mem_follow_up_ids hid
    · refine ⟨ds.map (decisionRecord (planFollowUps validated seen).duplicates b.completed_query_ids), ?_, ?_⟩
      · show s.follow_up_decisions ++ _ = _
        rw [hs.follow_up_decisions]
      · intro q hq
        have hids : (ds.map (decisionRecord (planFollowUps validated seen).duplicates b.completed_query_ids)).map
            (·.question_id) = b.follow_up_ids := by
          rw [List.map_map, ← hds.question_ids]
          exact List.map_congr_left fun d _ => question_id_decisionRecord _ _ d
        have hcount : b.follow_up_ids.count q.question_id = 1 :=
          List.count_eq_one_of_mem (nodup_follow_up_ids b) (List.mem_map_of_mem hq)
        rw [← hids, List.count, List.countP_map] at hcount
        rw [← hcount]
        exact List.countP_congr fun record _ => by simp
  · obtain ⟨_, _, _, h⟩ := run_bind_eq_ok.mp h
    cases h

/-- **Follow-up planning.** A round that stores its document has added only searches that no search of the same identity
is completed or added before, each of which the policy allows again, and it has recorded one decision for each of its
questions. -/
theorem follow_up_adds {uuid uuid' : Nat → Uuid} {answered : List FollowUpDecision}
    {repair : List String → List FollowUpDecision}
    (hanswered : Contract.accepts (.follow_up_decisions b.follow_up_ids) answered = true)
    (hrepair : ∀ ids, Contract.accepts (.follow_up_decisions ids) (repair ids) = true) {stored : Results}
    (h : (b.follow_up py uuid uuid' answered repair).run b.results = (.ok (), stored)) :
    ∃ added, Adds py b stored added := by
  obtain ⟨ds, s₁, hdecide, h⟩ := run_bind_eq_ok.mp h
  obtain ⟨planned, s₂, hplan, h⟩ := run_bind_eq_ok.mp h
  cases h
  obtain ⟨hds, hs⟩ := run_decide hanswered hrepair hdecide
  exact adds_of_planRound hds hs hplan

theorem accepts_skipped (ids : List String) :
    Contract.accepts (.follow_up_decisions ids) (ids.map skippedDecision) = true := by
  have hids : (ids.map skippedDecision).map (·.question_id) = ids := by
    rw [List.map_map]
    exact List.map_id ids
  simp only [Contract.accepts, Bool.and_eq_true, List.all_map, List.length_map, decide_true, and_true]
  refine ⟨List.all_eq_true.mpr fun id _ => ?_, ?_⟩
  · show decide (strip "no telemetry".toList ≠ []) = true
    decide
  · rw [hids]
    simp [sameSet]

/-- Two questions answered with the same search: it is planned once. -/
theorem follow_up_adds_sample : ∃ stored added,
    Adds asciiPython (sampleBatch [samplePlanQuestion "question-1" "hosts", samplePlanQuestion "question-2" "users"] [] "")
      stored added ∧ stored.ledger.length = 1 ∧ stored.follow_up_decisions.length = 2 := by
  let b := sampleBatch [samplePlanQuestion "question-1" "hosts", samplePlanQuestion "question-2" "users"] [] ""
  let answered := ["question-1", "question-2"].map fun id => sampleDecision id "search index=main sourcetype=a"
  let run := (b.follow_up asciiPython (fun _ => "query-2") (fun _ => "query-3") answered (·.map skippedDecision)).run b.results
  have hrun : run.1 = .ok () := by decide
  have hanswered : Contract.accepts (.follow_up_decisions b.follow_up_ids) answered = true := by decide
  obtain ⟨added, hadded⟩ := @follow_up_adds asciiPython b (fun _ => "query-2") (fun _ => "query-3") answered
    (·.map skippedDecision) hanswered accepts_skipped run.2 (Prod.ext hrun rfl)
  exact ⟨run.2, added, hadded, by decide, by decide⟩

end Batch

end FollowUps

end ThreatHunting
