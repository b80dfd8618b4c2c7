import ThreatHunting.Services.Lawful

/-!
# ThreatHunting.Services.Accounting

The account a `StrictModelRunner` keeps of its calls. The trace of a history is what the
adapter has seen of it: the requests that were built, and the calls with the tokens they used.
Runners with different limits share one set of counters; after any operations the counters are
those before plus what the trace has gained, one check is logged for each call, and each call
was permitted by the limits of the runner that made it.
-/

namespace ThreatHunting

open Store Op

/-! ### Traces -/

/-- What the model adapter sees: a request that was built, or a call, with the tokens its
response reports, if there is one. -/
inductive ModelEvent
  | requested (request : ModelRequest)
  | called (repair : Bool) (usage : Option (Nat × Nat))
  deriving DecidableEq, Repr

namespace ModelEvent

def calls : ModelEvent → Nat
  | requested _ => 0
  | called _ _ => 1

def repairs : ModelEvent → Nat
  | requested _ => 0
  | called repair _ => repair.toNat

def input : ModelEvent → Nat
  | requested _ => 0
  | called _ usage => (usage.map (·.1)).getD 0

def request : ModelEvent → Option ModelRequest
  | requested request => some request
  | called _ _ => none

end ModelEvent

/-- A trace, latest event first. -/
abbrev ModelTrace := List ModelEvent

namespace ModelTrace

/-- The number of calls. -/
def calls (t : ModelTrace) : Nat := (t.map ModelEvent.calls).sum

/-- The number of repair calls. -/
def repairs (t : ModelTrace) : Nat := (t.map ModelEvent.repairs).sum

/-- The input tokens of the responses. -/
def input (t : ModelTrace) : Nat := (t.map ModelEvent.input).sum

/-- The latest request. -/
def request (t : ModelTrace) : Option ModelRequest := t.findSome? ModelEvent.request

theorem repairs_le_calls (t : ModelTrace) : t.repairs ≤ t.calls := by
  refine List.sum_le_sum fun e _ => ?_
  cases e with
  | requested request => exact Nat.le_refl 0
  | called repair usage => exact Bool.toNat_le repair

end ModelTrace

/-- What the adapter sees of an event. -/
def modelEvent : Event → Option ModelEvent
  | .answered (.prompt _) (.ok request) => some (.requested request)
  | .answered (.complete _ repair) (.ok response) =>
      some (.called repair (some (response.input_tokens, response.output_tokens)))
  | .answered (.complete _ repair) (.error _) => some (.called repair none)
  | _ => none

/-- What the adapter has seen. -/
def modelTrace (past : List Event) : ModelTrace := past.filterMap modelEvent

/-- The counters after the events `new`, from the counters before them. -/
structure Accounted (m : BudgetCounters) (new : ModelTrace) (m' : BudgetCounters) : Prop where
  calls : m'.model_calls = m.model_calls + new.calls
  repairs : m'.model_repair_attempts = m.model_repair_attempts + new.repairs
  input : m'.model_input_tokens = m.model_input_tokens + new.input
  failed : m'.failed_model_calls ≤ m.failed_model_calls + new.calls
  checks : ∃ added, added.length = new.calls ∧ m'.model_output_checks = m.model_output_checks ++ added
  splunk : m'.splunk_queries = m.splunk_queries ∧ m'.failed_splunk_queries = m.failed_splunk_queries

/-- The limits permit a call after the events `new`: one is left, and the latest request fits. -/
def Permitted (limits : BudgetValues) (m : BudgetCounters) (new : ModelTrace) : Prop :=
  m.model_calls + new.calls < limits.max_model_calls ∧ ∃ request ∈ new.request,
    request.characters ≤ limits.max_context_characters ∧
      request.estimated_tokens + (m.model_input_tokens + new.input) ≤ limits.max_model_input_tokens

namespace Accounted

variable {m m' : BudgetCounters} {new : ModelTrace}

theorem refl (m : BudgetCounters) : Accounted m [] m :=
  ⟨rfl, rfl, rfl, Nat.le_refl _, ⟨[], rfl, by simp⟩, rfl, rfl⟩

theorem trans {m₁ m₂ m₃ : BudgetCounters} {new new' : ModelTrace} (h : Accounted m₁ new m₂)
    (h' : Accounted m₂ new' m₃) : Accounted m₁ (new' ++ new) m₃ := by
  obtain ⟨added, hlen, hadded⟩ := h.checks
  obtain ⟨added', hlen', hadded'⟩ := h'.checks
  refine ⟨?_, ?_, ?_, ?_, ⟨added ++ added', ?_, by rw [hadded', hadded, List.append_assoc]⟩,
    h'.splunk.1.trans h.splunk.1, h'.splunk.2.trans h.splunk.2⟩
  · have h₁ := h.calls
    have h₂ := h'.calls
    simp only [ModelTrace.calls, List.map_append, List.sum_append] at *
    omega
  · have h₁ := h.repairs
    have h₂ := h'.repairs
    simp only [ModelTrace.repairs, List.map_append, List.sum_append] at *
    omega
  · have h₁ := h.input
    have h₂ := h'.input
    simp only [ModelTrace.input, List.map_append, List.sum_append] at *
    omega
  · have h₁ := h.failed
    have h₂ := h'.failed
    simp only [ModelTrace.calls, List.map_append, List.sum_append] at *
    omega
  · rw [List.length_append, hlen, hlen']
    simp only [ModelTrace.calls, List.map_append, List.sum_append]
    omega

/-- Counters that pass their validation still do. -/
theorem valid (h : Accounted m new m') (hm : m.Valid) : m'.Valid := by
  obtain ⟨h₁, h₂, h₃⟩ := hm
  have hr := new.repairs_le_calls
  refine ⟨?_, ?_, by rw [h.splunk.1, h.splunk.2]; exact h₃⟩
  · have := h.failed
    have := h.calls
    omega
  · have := h.repairs
    have := h.calls
    omega

/-- A request costs nothing. -/
theorem requested (m : BudgetCounters) (request : ModelRequest) : Accounted m [.requested request] m :=
  ⟨rfl, rfl, rfl, Nat.le_refl _, ⟨[], rfl, by simp⟩, rfl, rfl⟩

end Accounted

/-- The counters with a call recorded and logged. -/
def counted (m : BudgetCounters) (repair : Bool) (check : ModelOutputCheck) : BudgetCounters :=
  (m.record_model_call repair).append_check check

/-- The counters after the response to a call. -/
def answered (m : BudgetCounters) (repair : Bool) (check : ModelOutputCheck) (input output : Nat) : BudgetCounters :=
  ((counted m repair check).update_check fun check =>
    { check with input_tokens := some input, output_tokens := some output }).record_tokens input output

theorem accounted_failed_call (m : BudgetCounters) (repair : Bool) (check : ModelOutputCheck) :
    Accounted m [.called repair none] (counted m repair check).record_failed_model_call :=
  ⟨rfl, rfl, rfl, Nat.le_refl _, ⟨[check], rfl, rfl⟩, rfl, rfl⟩

theorem checks_answered (m : BudgetCounters) (repair : Bool) (check : ModelOutputCheck) (input output : Nat) :
    ∃ added, added.length = 1 ∧
      (answered m repair check input output).model_output_checks = m.model_output_checks ++ added :=
  ⟨[{ check with input_tokens := some input, output_tokens := some output }], rfl,
    List.modifyLast_concat _ check m.model_output_checks⟩

theorem accounted_call (m : BudgetCounters) (repair : Bool) (check : ModelOutputCheck) (input output : Nat) :
    Accounted m [.called repair (some (input, output))] (answered m repair check input output) :=
  ⟨rfl, rfl, rfl, Nat.le_succ _, checks_answered m repair check input output, rfl, rfl⟩

theorem accounted_rejected_call (m : BudgetCounters) (repair : Bool) (check : ModelOutputCheck)
    (input output : Nat) : Accounted m [.called repair (some (input, output))]
      (answered m repair check input output).record_failed_model_call :=
  ⟨rfl, rfl, rfl, Nat.le_refl _, checks_answered m repair check input output, rfl, rfl⟩

/-- Whether the response of the latest call met its contract changes no count. -/
theorem Accounted.validity {m m' : BudgetCounters} {new : ModelTrace} (h : Accounted m new m')
    (hcalled : 0 < new.calls) (f : ModelOutputCheck → ModelOutputCheck) : Accounted m new (m'.update_check f) := by
  obtain ⟨added, hlen, hadded⟩ := h.checks
  obtain ⟨init, last, rfl⟩ : ∃ init last, added = init ++ [last] := by
    refine ⟨added.dropLast, added.getLast ?_, (List.dropLast_append_getLast _).symm⟩
    rintro rfl
    simp at hlen
    omega
  refine ⟨h.calls, h.repairs, h.input, h.failed, ⟨init ++ [f last], by simpa using hlen, ?_⟩, h.splunk⟩
  show m'.model_output_checks.modifyLast f = _
  rw [hadded, ← List.append_assoc, List.modifyLast_concat, List.append_assoc]

/-! ### Runners -/

/-- The adapter is called only after a trace that `permits` it; nobody else calls it. -/
def billing (permits : ModelTrace → Prop) : Regime where
  admits _ _ := True
  inv _ := True
  rely h h' := modelTrace h'.past = modelTrace h.past
  guar h h' := ∀ repair usage, modelTrace h'.past = .called repair usage :: modelTrace h.past →
    permits (modelTrace h.past)
  rely_refl _ := rfl
  rely_trans h h' := h'.trans h

/-- The counters and the trace are as they were. -/
def Idle (m : BudgetCounters) (t : ModelTrace) (m' : BudgetCounters) (h' : History) : Prop :=
  m' = m ∧ modelTrace h'.past = t

/-- A cancellation token neither calls the model nor counts. -/
def Token (is_cancelled : Op Bool) : Prop :=
  ∀ permits m t, is_cancelled.Keeps (billing permits) (Idle m t)

section

variable {permits : ModelTrace → Prop} {m₀ : BudgetCounters} {t : ModelTrace}

theorem stable_idle : Proc.Stable (billing permits) (Idle m₀ t) := fun _ _ _ hr ⟨hm, ht⟩ => ⟨hm, hr.trans ht⟩

theorem modelTrace_answer {h : History} {q : Ask} {a : q.Answer} (hq : modelEvent (.answered q a) = none) :
    modelTrace (h.answer q a).past = modelTrace h.past := List.filterMap_cons_none hq

/-- A question that is none of the adapter's changes nothing. -/
theorem idle_ask {q : Ask} (hq : ∀ a, modelEvent (.answered q a) = none) :
    Proc.Keeps (billing permits) (Idle m₀ t) (Proc.ask (S := signature) q : Op _) := by
  refine .ask stable_idle fun m h a _ _ ⟨hm, ht⟩ => ?_
  have htrace := modelTrace_answer (h := h) (hq a)
  refine ⟨trivial, fun repair usage hcall => ?_, hm, htrace.trans ht⟩
  exact absurd (htrace.symm.trans hcall) (List.ne_cons_self)

theorem idle_commit (t' : Transaction) :
    Proc.Keeps (billing permits) (Idle m₀ t) (Proc.commit (S := signature) t' : Op _) := by
  refine .commit stable_idle fun m h s _ _ _ ⟨hm, ht⟩ => ?_
  have htrace : modelTrace (h.commit t' s).past = modelTrace h.past := List.filterMap_cons_none rfl
  refine ⟨trivial, fun repair usage hcall => ?_, hm, htrace.trans ht⟩
  exact absurd (htrace.symm.trans hcall) (List.ne_cons_self)

/-- A model call was made below the limit and accounted for. -/
def Called (limit : Nat) (m : BudgetCounters) (t : ModelTrace) (m' : BudgetCounters) (h' : History) : Prop :=
  m.model_calls < limit ∧ ∃ repair usage, modelTrace h'.past = .called repair usage :: t ∧
    Accounted m [.called repair usage] m'

/-- A call that is rejected is counted as failed. -/
theorem safe_reject {α : Type} {e : Fault} {m m' : BudgetCounters} {h : History} {Q : α → BudgetCounters → History → Prop}
    {repair : Bool} {usage : Option (Nat × Nat)} {limit : Nat} (hlt : m.model_calls < limit)
    (ht : modelTrace h.past = .called repair usage :: t) (hm : Accounted m [.called repair usage] m'.record_failed_model_call) :
    (StrictModelRunner.reject e : Op α).Safe (billing permits) m' h Q fun _ => Called limit m t :=
  .bind (Proc.safe_modify (Proc.safe_throw ⟨hlt, repair, usage, ht, hm⟩))

section

variable {runner : StrictModelRunner} {contract : Contract} {repair : Bool} {m : BudgetCounters} {h : History}
  {check : ModelOutputCheck} {input output : Nat} {limit : Nat}

/-- The response is in, and counted. -/
abbrev Responded (m : BudgetCounters) (t : ModelTrace) (repair : Bool) (check : ModelOutputCheck)
    (input output : Nat) : BudgetCounters → History → Prop :=
  Idle (answered m repair check input output) (.called repair (some (input, output)) :: t)

theorem Responded.called {m' : BudgetCounters} {h' : History} (hlt : m.model_calls < limit)
    (hr : Responded m t repair check input output m' h') : Called limit m t m' h' := by
  obtain ⟨rfl, ht⟩ := hr
  exact ⟨hlt, _, _, ht, accounted_call m repair check input output⟩

/-- A late response is rejected. -/
theorem safe_check_arrival {m' : BudgetCounters} (hlt : m.model_calls < limit)
    (hr : Responded m t repair check input output m' h) :
    runner.check_arrival.Safe (billing permits) m' h (fun _ => Responded m t repair check input output)
      fun _ => Called limit m t := by
  unfold StrictModelRunner.check_arrival
  split
  next => exact Proc.safe_pure hr
  next deadline =>
    refine Proc.Safe.seq ((idle_ask (q := .now) (fun _ => rfl) m' h hr).mono (fun _ _ _ h => h)
      fun _ _ _ h => Responded.called hlt h) fun now m₁ h₁ hr₁ => ?_
    refine Proc.safe_ite (fun _ => ?_) fun _ => Proc.safe_pure hr₁
    obtain ⟨rfl, ht⟩ := hr₁
    exact safe_reject hlt ht (accounted_rejected_call m repair check input output)

/-- A refusal or a response that was cut off is rejected. -/
theorem safe_check_finish {m' : BudgetCounters} (response : ModelResponse contract) (hlt : m.model_calls < limit)
    (hr : Responded m t repair check input output m' h) :
    (StrictModelRunner.check_finish response).Safe (billing permits) m' h
      (fun _ => Responded m t repair check input output) fun _ => Called limit m t := by
  obtain ⟨rfl, ht⟩ := id hr
  unfold StrictModelRunner.check_finish
  split
  next => exact Proc.safe_pure hr
  next => exact safe_reject hlt ht (accounted_rejected_call m repair check input output)
  next => exact safe_reject hlt ht (accounted_rejected_call m repair check input output)

/-- The call itself: counted and logged before it is made, whatever comes of it. -/
theorem safe_complete (hlt : m.model_calls < limit) (hp : permits t) (ht : modelTrace h.past = t) :
    ((StrictModelRunner.complete contract repair).handle StrictModelRunner.reject).Safe (billing permits)
      (counted m repair check) h
      (fun response m' h' => m' = counted m repair check ∧
        modelTrace h'.past = .called repair (some (response.input_tokens, response.output_tokens)) :: t)
      fun _ => Called limit m t := by
  refine Proc.Safe.handle (F := fun _ m' h' => m' = counted m repair check ∧
    modelTrace h'.past = .called repair none :: t) ?_ fun e m' h' ⟨hm, ht'⟩ => ?_
  · refine .bind (Proc.safe_ask fun h' hr _ a _ => ?_)
    have ht' : modelTrace h'.past = t := hr.trans ht
    refine ⟨trivial, fun _ _ _ => ht' ▸ hp, ?_⟩
    cases a with
    | ok response => exact Proc.safe_pure ⟨rfl, congrArg (_ :: ·) ht'⟩
    | error e => exact Proc.safe_throw ⟨rfl, congrArg (_ :: ·) ht'⟩
  · subst hm
    exact safe_reject hlt ht' (accounted_failed_call m repair check)

/-- The operation has not called the model, or has and is accounted for. -/
def Settled (limit : Nat) (m : BudgetCounters) (t : ModelTrace) (m' : BudgetCounters) (h' : History) : Prop :=
  Idle m t m' h' ∨ Called limit m t m' h'

theorem safe_raiseIf_idle {b : Prop} [Decidable b] {e : Fault} {m' : BudgetCounters} (hi : Idle m t m' h) :
    (raiseIf b e).Safe (billing permits) m' h (fun _ m' h' => ¬b ∧ Idle m t m' h') fun _ => Settled limit m t :=
  safe_raiseIf (fun _ => .inl hi) fun hb => ⟨hb, hi⟩

/-- `_call` makes at most one call, which its limits permit; a value is the response of a call. -/
theorem safe_call {request : ModelRequest} (htoken : Token runner.is_cancelled)
    (hp : m.model_calls < runner.limits.max_model_calls → runner.request_fits m request = true → permits t)
    (ht : modelTrace h.past = t) :
    (runner.call contract request repair).Safe (billing permits) m h
      (fun _ => Called runner.limits.max_model_calls m t) fun _ => Settled runner.limits.max_model_calls m t := by
  refine Proc.Safe.seq ((htoken permits m t m h ⟨rfl, ht⟩).mono (fun _ _ _ h => h) fun _ _ _ h => .inl h)
    fun cancelled m₁ h₁ hi => ?_
  refine Proc.Safe.seq (safe_raiseIf_idle hi) fun _ m₂ h₂ hi => ?_
  obtain ⟨-, hi⟩ := hi
  refine Proc.Safe.seq (T := fun _ => Idle m t) ?_ fun _ m₃ h₃ hi => ?_
  · unfold StrictModelRunner.check_deadline
    split
    next => exact Proc.safe_pure hi
    next deadline =>
      refine Proc.Safe.seq ((idle_ask (q := .now) (fun _ => rfl) m₂ h₂ hi).mono (fun _ _ _ h => h)
        fun _ _ _ h => .inl h) fun now m₃ h₃ hi => ?_
      exact (safe_raiseIf_idle hi).mono (fun _ _ _ h => h.2) fun _ _ _ h => h
  · obtain ⟨rfl, ht₃⟩ := hi
    refine .bind (Proc.safe_get ?_)
    refine Proc.Safe.seq (safe_raiseIf_idle ⟨rfl, ht₃⟩) fun _ m₄ h₄ hi => ?_
    obtain ⟨hcan, rfl, ht₄⟩ := hi
    refine Proc.Safe.seq (safe_raiseIf_idle ⟨rfl, ht₄⟩) fun _ m₅ h₅ hi => ?_
    obtain ⟨hfits, rfl, ht₅⟩ := hi
    refine .bind (Proc.safe_modify (.bind (Proc.safe_modify ?_)))
    have hlt : m₅.model_calls < runner.limits.max_model_calls := by
      simpa [BudgetCounters.can_start_model_call] using hcan
    have hpermits : permits t := hp hlt (by simpa using hfits)
    refine Proc.Safe.seq ((safe_complete hlt hpermits ht₅).mono (fun _ _ _ h => h) fun _ _ _ h => .inr h)
      fun response m₆ h₆ hcalled => ?_
    obtain ⟨rfl, ht₆⟩ := hcalled
    refine .bind (Proc.safe_modify (.bind (Proc.safe_modify ?_)))
    refine Proc.Safe.seq ((safe_check_arrival hlt ⟨rfl, ht₆⟩).mono (fun _ _ _ h => h)
      fun _ _ _ h => .inr h) fun _ m₇ h₇ hr => ?_
    refine Proc.Safe.seq ((safe_check_finish response hlt hr).mono (fun _ _ _ h => h) fun _ _ _ h => .inr h)
      fun _ m₈ h₈ hr => ?_
    refine .bind (Proc.safe_get (.bind (safe_raiseIf (fun _ => .inr (hr.called hlt)) fun _ => ?_)))
    exact Proc.safe_pure (hr.called hlt)

end

/-! ### Operations -/

/-- The books balance: the counters are those before plus what the trace has gained, and the
calls went no further than the limit. -/
def Balanced (limit : Nat) (m : BudgetCounters) (t : ModelTrace) (m' : BudgetCounters) (h' : History) : Prop :=
  m'.model_calls ≤ max m.model_calls limit ∧ ∃ new, modelTrace h'.past = new ++ t ∧ Accounted m new m'

/-- They balance, and a call was made. -/
def BalancedCall (limit : Nat) (m : BudgetCounters) (t : ModelTrace) (m' : BudgetCounters) (h' : History) : Prop :=
  m'.model_calls ≤ limit ∧ ∃ new, 0 < ModelTrace.calls new ∧ modelTrace h'.past = new ++ t ∧ Accounted m new m'

section

variable {runner : StrictModelRunner} {contract : Contract} {m m' : BudgetCounters} {h h' : History}
  {new : ModelTrace} {limit : Nat}

theorem BalancedCall.balanced (hb : BalancedCall limit m t m' h') : Balanced limit m t m' h' := by
  obtain ⟨hle, new, -, ht, hm⟩ := hb
  exact ⟨le_max_of_le_right hle, new, ht, hm⟩

theorem Called.balanced {m'' : BudgetCounters} (hm : Accounted m new m')
    (hc : Called limit m' (new ++ t) m'' h') : BalancedCall limit m t m'' h' := by
  obtain ⟨hlt, repair, usage, ht, hm'⟩ := hc
  refine ⟨?_, .called repair usage :: new, by simp [ModelTrace.calls, ModelEvent.calls], ht, hm.trans hm'⟩
  rw [hm'.calls]
  exact hlt

theorem Settled.balanced {m'' : BudgetCounters} (hle : m'.model_calls ≤ max m.model_calls limit)
    (hm : Accounted m new m') (hs : Settled limit m' (new ++ t) m'' h') : Balanced limit m t m'' h' := by
  rcases hs with ⟨rfl, ht⟩ | hc
  · exact ⟨hle, new, ht, hm⟩
  · exact (Called.balanced hm hc).balanced

/-- Building a request adds it to the trace. -/
theorem safe_prompt (hle : m'.model_calls ≤ max m.model_calls limit) (ht : modelTrace h.past = new ++ t)
    (hm : Accounted m new m') :
    (runner.prompt contract).Safe (billing permits) m' h
      (fun request m'' h' => m'' = m' ∧ modelTrace h'.past = .requested request :: new ++ t)
      fun _ => Balanced limit m t := by
  refine .bind (Proc.safe_ask fun h' hr _ a _ => ?_)
  have ht' : modelTrace h'.past = new ++ t := hr.trans ht
  cases a with
  | error e =>
      have htrace : modelTrace (h'.answer (Ask.prompt contract) (.error e)).past = modelTrace h'.past :=
        modelTrace_answer rfl
      refine ⟨trivial, fun repair usage hcall => ?_, .bind (Proc.safe_throw ⟨hle, new, htrace.trans ht', hm⟩)⟩
      exact absurd (htrace.symm.trans hcall) List.ne_cons_self
  | ok request =>
      have htrace : modelTrace (h'.answer (Ask.prompt contract) (.ok request)).past =
          .requested request :: modelTrace h'.past := rfl
      have hafter := htrace.trans (congrArg (_ :: ·) ht')
      refine ⟨trivial, fun repair usage hcall => ?_, ?_⟩
      · rw [htrace] at hcall
        cases hcall
      · refine .bind (Proc.safe_pure (.bind (.bind (Proc.safe_get (safe_raiseIf (fun _ => ?_) fun _ => ?_)))))
        · exact ⟨hle, .requested request :: new, hafter, hm.trans (.requested m' request)⟩
        · exact Proc.safe_pure ⟨rfl, hafter⟩

/-- The call of a request that has just been built. -/
theorem safe_requested_call {request : ModelRequest} {repair : Bool} (htoken : Token runner.is_cancelled)
    (hp : ∀ new, Permitted runner.limits m new → permits (new ++ t))
    (hle : m'.model_calls ≤ max m.model_calls runner.limits.max_model_calls)
    (ht : modelTrace h.past = .requested request :: new ++ t) (hm : Accounted m new m') :
    (runner.call contract request repair).Safe (billing permits) m' h
      (fun _ => BalancedCall runner.limits.max_model_calls m t)
      fun _ => Balanced runner.limits.max_model_calls m t := by
  have hm' : Accounted m (.requested request :: new) m' := hm.trans (.requested m' request)
  refine (safe_call htoken (fun hlt hfits => hp (.requested request :: new) ⟨?_, request, rfl, ?_⟩) ht).mono
    (fun _ _ _ hc => Called.balanced hm' hc) fun _ _ _ hs => Settled.balanced hle hm' hs
  · rw [← hm'.calls]
    exact hlt
  · simp only [StrictModelRunner.request_fits, Bool.and_eq_true, decide_eq_true_eq] at hfits
    rw [← hm'.input]
    exact hfits

/-- Noting whether the response met its contract. -/
theorem safe_record_validity {valid : Bool} (hb : BalancedCall limit m t m' h) :
    (StrictModelRunner.record_validity valid).Safe (billing permits) m' h (fun _ => BalancedCall limit m t)
      fun _ => Balanced limit m t := by
  obtain ⟨hle, new, hcalled, ht, hm⟩ := hb
  exact Proc.safe_modify ⟨hle, new, hcalled, ht, hm.validity hcalled _⟩

/-- `run` balances, and its calls are permitted by its limits. -/
theorem safe_run (htoken : Token runner.is_cancelled)
    (hp : ∀ new, Permitted runner.limits m new → permits (new ++ t)) (ht : modelTrace h.past = t) :
    (runner.run contract).Safe (billing permits) m h (fun _ => Balanced runner.limits.max_model_calls m t)
      fun _ => Balanced runner.limits.max_model_calls m t := by
  have hstart : modelTrace h.past = [] ++ t := ht
  refine Proc.Safe.seq (safe_prompt (le_max_left _ _) hstart (.refl m)) fun request m₁ h₁ ⟨hm₁, ht₁⟩ => ?_
  subst hm₁
  refine Proc.Safe.seq (safe_requested_call htoken hp (le_max_left _ _) ht₁ (.refl m₁)) fun first m₂ h₂ hb => ?_
  cases first with
  | ok value =>
      exact Proc.Safe.seq (safe_record_validity hb) fun _ _ _ hb => Proc.safe_pure hb.balanced
  | error reason =>
      refine Proc.Safe.seq (safe_record_validity hb) fun _ m₃ h₃ ⟨hle, new, _, ht₃, hm₃⟩ => ?_
      refine Proc.Safe.seq (safe_prompt (le_max_of_le_right hle) ht₃ hm₃) fun request m₄ h₄ ⟨hm₄, ht₄⟩ => ?_
      subst hm₄
      refine Proc.Safe.seq (safe_requested_call htoken hp (le_max_of_le_right hle) ht₄ hm₃)
        fun second m₅ h₅ hb => ?_
      cases second with
      | ok value =>
          exact Proc.Safe.seq (safe_record_validity hb) fun _ _ _ hb => Proc.safe_pure hb.balanced
      | error reason =>
          exact Proc.Safe.seq (safe_record_validity hb) fun _ _ _ hb => Proc.safe_throw hb.balanced

/-- `repair_once` balances, and its call is permitted by its limits. -/
theorem safe_repair_once (htoken : Token runner.is_cancelled)
    (hp : ∀ new, Permitted runner.limits m new → permits (new ++ t)) (ht : modelTrace h.past = t) :
    (runner.repair_once contract).Safe (billing permits) m h
      (fun _ => Balanced runner.limits.max_model_calls m t)
      fun _ => Balanced runner.limits.max_model_calls m t := by
  have hstart : modelTrace h.past = [] ++ t := ht
  refine Proc.Safe.seq (safe_prompt (le_max_left _ _) hstart (.refl m)) fun request m₁ h₁ ⟨hm₁, ht₁⟩ => ?_
  subst hm₁
  refine Proc.Safe.seq (safe_requested_call htoken hp (le_max_left _ _) ht₁ (.refl m₁))
    fun repaired m₂ h₂ hb => ?_
  cases repaired with
  | ok value => exact Proc.Safe.seq (safe_record_validity hb) fun _ _ _ hb => Proc.safe_pure hb.balanced
  | error reason => exact Proc.Safe.seq (safe_record_validity hb) fun _ _ _ hb => Proc.safe_throw hb.balanced

end

end

/-! ### Sequences of operations -/

namespace WorkflowService

/-- A model operation: its runner's limits and deadline, the worker whose token it is cancelled
through, if any, and whether it is a `run` or a `repair_once`. -/
structure ModelOperation where
  limits : BudgetValues
  deadline : Option Instant
  worker : Option Worker
  contract : Contract
  only_repair : Bool

namespace ModelOperation

/-- The runner of an operation. -/
def runner (o : ModelOperation) : StrictModelRunner where
  limits := o.limits
  deadline := o.deadline
  is_cancelled :=
    match o.worker with
    | some w => w.is_cancelled
    | none => pure false

/-- Run the operation; its value is for the caller. -/
def run (o : ModelOperation) : Op Unit :=
  if o.only_repair = true then do
    let _ ← o.runner.repair_once o.contract
    pure ()
  else do
    let _ ← o.runner.run o.contract
    pure ()

/-- Run operations one after the other, whatever becomes of each. -/
def runAll : List ModelOperation → Op (List Unit) :=
  Proc.collect fun o => o.run.handle fun _ => pure ()

end ModelOperation

section

variable {permits : ModelTrace → Prop} {m : BudgetCounters} {t : ModelTrace}

theorem idle_require_lease (w : Worker) : w.require_lease.Keeps (billing permits) (Idle m t) := by
  refine .bind (idle_ask fun _ => rfl) fun now => .bind (idle_commit _) fun x => ?_
  obtain ⟨db, accepted⟩ := x
  exact .ite (fun _ => .pure ()) fun _ => .bind (.ofExcept _) fun _ => .pure ()

theorem idle_row (w : Worker) : w.row.Keeps (billing permits) (Idle m t) := by
  refine .bind (.read stable_idle) fun db => ?_
  unfold ofOption
  split
  next => exact .pure _
  next => exact .throw _

theorem token_is_cancelled (w : Worker) : Token w.is_cancelled := by
  intro permits m t
  refine .bind (idle_ask fun _ => rfl) fun signal => .ite (fun _ => .pure _) fun _ => ?_
  refine .handle (.bind (idle_require_lease w) fun _ => .bind (idle_row w) fun _ => .pure _) fun e => ?_
  split
  next => exact .pure _
  next => exact .pure _
  next => exact .throw _

theorem token_runner (o : ModelOperation) : Token o.runner.is_cancelled := by
  cases hw : o.worker with
  | some w => simpa only [ModelOperation.runner, hw] using token_is_cancelled w
  | none =>
      intro permits m t
      simpa only [ModelOperation.runner, hw] using Proc.Keeps.pure false

/-- An operation balances, and its calls are permitted by its limits. -/
theorem safe_operation (o : ModelOperation) {h : History}
    (hp : ∀ new, Permitted o.limits m new → permits (new ++ t)) (ht : modelTrace h.past = t) :
    o.run.Safe (billing permits) m h (fun _ => Balanced o.limits.max_model_calls m t)
      fun _ => Balanced o.limits.max_model_calls m t := by
  refine Proc.safe_ite (fun _ => ?_) fun _ => ?_
  · exact Proc.Safe.seq (safe_repair_once (token_runner o) hp ht) fun _ _ _ hb => Proc.safe_pure hb
  · exact Proc.Safe.seq (safe_run (token_runner o) hp ht) fun _ _ _ hb => Proc.safe_pure hb

end

/-- Operations one after the other balance, and go no further than the largest of their limits. -/
theorem safe_operations (ops : List ModelOperation) (m : BudgetCounters) (h : History) :
    (ModelOperation.runAll ops).Safe (billing fun _ => True) m h
      (fun _ m' h' => (∃ new, modelTrace h'.past = new ++ modelTrace h.past ∧ Accounted m new m') ∧
        ∀ n, (∀ o ∈ ops, o.limits.max_model_calls ≤ n) → m.model_calls ≤ n → m'.model_calls ≤ n)
      fun _ _ _ => False := by
  refine Proc.safe_collect (fun (_ : List Unit) m' h' =>
    (∃ new, modelTrace h'.past = new ++ modelTrace h.past ∧ Accounted m new m') ∧
      ∀ n, (∀ o ∈ ops, o.limits.max_model_calls ≤ n) → m.model_calls ≤ n → m'.model_calls ≤ n)
    ops [] m h ⟨⟨[], rfl, .refl m⟩, fun _ _ hle => hle⟩ fun o ho _ m₁ h₁ ⟨⟨new, ht, hm₁⟩, hle₁⟩ => ?_
  have hop : o.run.Safe (billing fun _ => True) m₁ h₁ _ _ := safe_operation o (fun _ _ => trivial) rfl
  have later : ∀ m₂ h₂, Balanced o.limits.max_model_calls m₁ (modelTrace h₁.past) m₂ h₂ →
      (∃ new, modelTrace h₂.past = new ++ modelTrace h.past ∧ Accounted m new m₂) ∧
        ∀ n, (∀ o ∈ ops, o.limits.max_model_calls ≤ n) → m.model_calls ≤ n → m₂.model_calls ≤ n := by
    intro m₂ h₂ ⟨hle₂, new', ht₂, hm₂⟩
    refine ⟨⟨new' ++ new, by rw [ht₂, ht, List.append_assoc], hm₁.trans hm₂⟩, fun n hn hle => ?_⟩
    exact hle₂.trans (max_le (hle₁ n hn hle) (hn o ho))
  exact Proc.Safe.handle (hop.mono (fun _ => later) fun _ => later) fun e m₂ h₂ hb => Proc.safe_pure hb

/-- **Budget accounting.** Every call of an operation is permitted by its runner's limits, and
over any operations of any runners that share the counters, each call is counted and logged
once, failed calls and repairs stay within the calls, and runners whose limit is one call less
leave a call over. -/
theorem model_calls_accounted {m : BudgetCounters} (hm : m.Valid) (h : History) :
    (∀ o : ModelOperation, o.run.Safe
      (billing fun t => ∃ new, t = new ++ modelTrace h.past ∧ Permitted o.limits m new) m h
      (fun _ => Balanced o.limits.max_model_calls m (modelTrace h.past))
      fun _ => Balanced o.limits.max_model_calls m (modelTrace h.past)) ∧
    ∀ ops : List ModelOperation, (ModelOperation.runAll ops).Safe (billing fun _ => True) m h
      (fun _ m' h' => (∃ new, modelTrace h'.past = new ++ modelTrace h.past ∧ Accounted m new m') ∧ m'.Valid ∧
        ∀ limits : BudgetLimits, (∀ o ∈ ops, o.limits.max_model_calls = limits.max_model_calls - 1) →
          m.model_calls < limits.max_model_calls → m'.can_start_model_call limits.toBudgetValues = true)
      fun _ _ _ => False := by
  refine ⟨fun o => safe_operation o (fun new hnew => ⟨new, rfl, hnew⟩) rfl, fun ops => ?_⟩
  refine (safe_operations ops m h).mono (fun _ m' h' ⟨⟨new, ht, hnew⟩, hle⟩ => ?_) fun _ _ _ h => h
  refine ⟨⟨new, ht, hnew⟩, hnew.valid hm, fun limits hlimits hlt => ?_⟩
  have hbound := hle (limits.max_model_calls - 1) (fun o ho => (hlimits o ho).le) (by omega)
  show decide (m'.model_calls < limits.max_model_calls) = true
  exact decide_eq_true (by omega)

/-- A run that may make so many calls. -/
def runWithin (max_model_calls : Nat) : ModelOperation where
  limits := { max_model_calls }
  deadline := none
  worker := none
  contract := .query_proposals
  only_repair := false

/-- Two runs that share the counters, after `n` steps with an adapter that always fails. -/
def twoRunsSteps (n : Nat) : Program signature (Except Fault (List Unit) × BudgetCounters) × History :=
  (ModelOperation.runAll [runWithin 12, runWithin 1] {}).steps (exampleAnswers 0 "u") n
    ⟨exampleDatabase (exampleRow .queued), []⟩

/-- The counters at the end. -/
def finalCounters : Program signature (Except Fault (List Unit) × BudgetCounters) → Option BudgetCounters
  | .pure (_, m) => some m
  | _ => none

/-- The first run fails after one call, and the second, which may make one, makes none. -/
theorem failed_call_counted_once : ∃ m : BudgetCounters, m.Valid ∧ m.model_calls = 1 ∧ m.failed_model_calls = 1 ∧
    m.model_output_checks.length = 1 := by
  have hsafe := (model_calls_accounted BudgetCounters.Valid.zero ⟨exampleDatabase (exampleRow .queued), []⟩).2
    [runWithin 12, runWithin 1]
  have hsteps : ∀ n, Program.Safe (billing fun _ => True) (twoRunsSteps n).1 _ (twoRunsSteps n).2 :=
    fun n => hsafe.steps (fun _ _ => trivial) (fun _ _ _ _ => trivial) n trivial
  have hend := hsteps 4
  have hfinal : ((finalCounters (twoRunsSteps 4).1).map fun m =>
      (m.model_calls, m.failed_model_calls, m.model_output_checks.length)) = some (1, 1, 1) := by decide +kernel
  generalize twoRunsSteps 4 = c at hend hfinal
  obtain ⟨p, h⟩ := c
  obtain ⟨m, hm, heq⟩ := Option.map_eq_some_iff.mp hfinal
  unfold finalCounters at hm
  split at hm
  next r m' hp =>
    obtain rfl : p = _ := hp
    cases hm
    obtain ⟨h₁, h₂, h₃⟩ := by simpa using heq
    cases r with
    | ok values => exact ⟨m, hend.2.1, h₁, h₂, h₃⟩
    | error e => exact hend.elim
  next => cases hm

end WorkflowService

end ThreatHunting
