import ThreatHunting.Services.FollowUpPlanning
import ThreatHunting.Services.LeadCoverage

/-!
# ThreatHunting.Services.FollowUpReview

The first pass over a batch of follow-up decisions. It is to raise nothing: a proposal that cannot be searched is recorded
as rejected and repaired. Judging raises nothing, so what is left are the rows, which may not be readable, and the
widening: a search that is to cover all retained lead sessions is parsed before the policy has seen it, and one that
does not parse, or more sessions than one search may name, end the hunt there.
-/

namespace ThreatHunting

open Fallible Rewriting

namespace FollowUps

open EvidenceLookup (value is_raw_event)
open ModelOutput (Members get)
open Spl (QueryProposal QueryValidationResult SPLPolicy parse_spl)
open ThreatIntel (Raised compare_advisory_iocs query_ioc_context extract_advisory_iocs patterns scalars)
open LeadSessions
open Grounding (Readable)
open WorkflowService.Worker (ordered rejections)

/-! ### Readable rows -/

section Rows

variable {json : Grounding.Reader} {calls : Nat}

theorem succeeds_mapError {ε δ α : Type} {f : ε → δ} {x : Except ε α} : Succeeds (x.mapError f) ↔ Succeeds x := by
  cases x <;> simp [Except.mapError]

theorem succeeds_scalars {j : Json} : Succeeds (scalars json calls j) ↔ Readable json calls j := by
  rw [scalars, succeeds_mapError, Grounding.succeeds_flatten]

/-- The advisory is no text that `json.loads` fails on in another way than with `JSONDecodeError`. -/
def AdvisoryReadable (json : Grounding.Reader) (text : String) : Prop :=
  ∀ e, json.loads text = .error e → e = .decode_error

theorem succeeds_query_ioc_context {text : String} :
    Succeeds (query_ioc_context json text) ↔ AdvisoryReadable json text := by
  rw [query_ioc_context, succeeds_bind_pure, extract_advisory_iocs, succeeds_bind_pure, patterns, AdvisoryReadable]
  cases hloads : json.loads text with
  | error e => cases e <;> simp
  | ok document =>
      refine iff_of_true ?_ (by simp)
      cases document with
      | object ms =>
          simp only
          split <;> exact succeeds_ok _
      | _ => exact succeeds_ok _

theorem succeeds_compare {j : Json} {iocs : ThreatIntel.IocContext} :
    Succeeds (compare_advisory_iocs json calls j iocs) ↔ Readable json calls j := by
  rw [compare_advisory_iocs, succeeds_bind_pure, succeeds_scalars]

end Rows

namespace Batch

variable {py : LeadSessions.Interpreter} {b : Batch}

/-! ### Leads -/

/-- A record that leads are made of: its result, if it has one, is a dictionary, and it and the records it stands for have
evidence ids. -/
structure LeadShaped (row : Members) : Prop where
  event : ∀ j ∈ get row "selected_result", ∃ ms, j = .object ms
  evidence_id : (get row "evidence_id").isSome = true
  references : ∃ origins, references row = .ok origins ∧
    ∀ j ∈ origins, ∃ origin, j = .object origin ∧ (get origin "evidence_id").isSome = true

theorem succeeds_evidenceId {row : Members} : Succeeds (evidenceId py row) ↔ (get row "evidence_id").isSome = true := by
  rw [evidenceId]
  cases get row "evidence_id" <;> simp

theorem succeeds_referenceId {j : Json} :
    Succeeds (referenceId py j) ↔ ∃ origin, j = .object origin ∧ (get origin "evidence_id").isSome = true := by
  cases j with
  | object origin => simp only [referenceId, succeeds_evidenceId, Json.object.injEq, exists_eq_left']
  | _ => simp [referenceId]

theorem succeeds_leadOf {record : Compared} : Succeeds (leadOf py record) ↔ LeadShaped record.1 := by
  have hevent : Succeeds (eventOf record.1) ↔ ∀ j ∈ get record.1 "selected_result", ∃ ms, j = .object ms := by
    rw [eventOf]
    cases get record.1 "selected_result" with
    | none => simp
    | some j => cases j <;> simp
  have hduplicates : ∀ event id, Succeeds (do
      let duplicates ← (← references record.1).mapM (referenceId py)
      return (leadKey py event id, (⟨id, LeadSessions.identityOf py event, (id :: duplicates).eraseDups⟩ : Lead))) ↔
      ∃ origins, references record.1 = .ok origins ∧
        ∀ j ∈ origins, ∃ origin, j = .object origin ∧ (get origin "evidence_id").isSome = true := by
    intro event id
    cases hreferences : references record.1 with
    | error e => simp
    | ok origins =>
        rw [ok_bind, succeeds_bind_pure, succeeds_mapM]
        simp only [succeeds_referenceId, Except.ok.injEq, exists_eq_left']
  rw [leadOf, succeeds_bind fun event _ => succeeds_bind fun id _ => hduplicates event id, hevent, succeeds_evidenceId]
  exact ⟨fun h => ⟨h.1, h.2.1, h.2.2⟩, fun h => ⟨h.event, h.evidence_id, h.references⟩⟩

theorem mem_byTime {records : List Compared} {record : Compared} : record ∈ byTime py records ↔ record ∈ records :=
  (List.perm_insertionSort _ _).mem_iff

theorem succeeds_advisory_lead_groups {records : List Compared} : Succeeds (advisory_lead_groups py records) ↔
    ∀ record ∈ records, isLead record = true → LeadShaped record.1 := by
  rw [advisory_lead_groups, succeeds_bind_pure, succeeds_mapM]
  simp only [succeeds_leadOf, List.mem_filter, mem_byTime, and_imp]

theorem succeeds_compared {row : Members} : Succeeds (b.compared py row) ↔
    AdvisoryReadable py.json b.threat_intelligence ∧ Readable py.json py.calls (value row "selected_result") := by
  rw [compared, succeeds_bind fun iocs _ => succeeds_bind_pure.trans succeeds_compare, succeeds_query_ioc_context]

/-- The retained rows can be gone through for leads: where there are any, the advisory can be read, each row can be, and
those the advisory names something of are shaped like leads. -/
structure LeadsReadable (py : LeadSessions.Interpreter) (b : Batch) : Prop where
  advisory : b.completedRows py ≠ [] → AdvisoryReadable py.json b.threat_intelligence
  rows : ∀ row ∈ b.completedRows py, Readable py.json py.calls (value row "selected_result")
  leads : ∀ row ∈ b.completedRows py, ∀ record, b.compared py row = .ok record → isLead record = true → LeadShaped row

theorem succeeds_sessions : Succeeds (b.sessions py) ↔ LeadsReadable py b := by
  have hcompared : Succeeds ((b.completedRows py).mapM (b.compared py)) ↔
      (b.completedRows py ≠ [] → AdvisoryReadable py.json b.threat_intelligence) ∧
        ∀ row ∈ b.completedRows py, Readable py.json py.calls (value row "selected_result") := by
    rw [succeeds_mapM]
    simp only [succeeds_compared]
    constructor
    · intro h
      -- the advisory is read once for each row, so not at all where there are none
      refine ⟨fun hne => ?_, fun row hrow => (h row hrow).2⟩
      obtain ⟨row, hrow⟩ := List.exists_mem_of_ne_nil _ hne
      exact (h row hrow).1
    · rintro ⟨hadvisory, hrows⟩ row hrow
      exact ⟨hadvisory (List.ne_nil_of_mem hrow), hrows row hrow⟩
  have hrecord : ∀ row record, b.compared py row = .ok record → record.1 = row := by
    intro row record h
    obtain ⟨_, -, h⟩ := bind_eq_ok.mp h
    obtain ⟨_, -, h⟩ := bind_eq_ok.mp h
    cases h
    rfl
  rw [sessions, succeeds_bind fun records hrecords => ?_, hcompared]
  · exact ⟨fun h => ⟨h.1.1, h.1.2, h.2⟩, fun h => ⟨⟨h.advisory, h.rows⟩, h.leads⟩⟩
  · rw [succeeds_bind_pure, succeeds_advisory_lead_groups]
    constructor
    · intro h row hrow record hok hlead
      obtain ⟨record', hmem, hok'⟩ := (mem_of_mapM hrecords).2 row hrow
      rw [hok] at hok'
      cases hok'
      exact hrecord row record hok ▸ h record hmem hlead
    · intro h record hmem hlead
      obtain ⟨row, hrow, hok⟩ := (mem_of_mapM hrecords).1 record hmem
      exact hrecord row record hok ▸ h row hrow record hok hlead

/-! ### Widening -/

/-- A session filter has a session. -/
theorem session_id_of_mem {leads : List Lead} {session : LeadSession} (h : session ∈ retained_lead_session_filters leads) :
    session.session_id.isSome = true := by
  rw [retained_lead_session_filters, List.mem_eraseDups, List.mem_filter] at h
  exact h.2

theorem succeeds_disjunction {sessions : List LeadSession} (hne : sessions ≠ [])
    (hids : ∀ session ∈ sessions, session.session_id.isSome = true) :
    Succeeds (lead_session_spl_disjunction sessions) ↔ sessions.length ≤ 64 := by
  rw [lead_session_spl_disjunction, List.filter_eq_self.mpr hids, List.length_map]
  split
  next h => exact iff_of_false (not_succeeds_error _) (Nat.not_le.mpr h)
  next h =>
    refine iff_of_true ?_ (Nat.le_of_not_lt h)
    split
    next hnil => exact absurd (List.map_eq_nil_iff.mp hnil) hne
    next => exact succeeds_ok _
    next => exact succeeds_ok _

theorem succeeds_widen_spl {spl : Text} {sessions : List LeadSession} (hne : sessions ≠ [])
    (hids : ∀ session ∈ sessions, session.session_id.isSome = true) :
    Succeeds (widen_spl_for_lead_sessions py spl sessions) ↔ Succeeds (parse_spl py.db spl) ∧ sessions.length ≤ 64 := by
  rw [widen_spl_for_lead_sessions, ← succeeds_disjunction hne hids]
  cases parse_spl py.db spl with
  | error e => cases e <;> simp
  | ok parsed =>
      simp only [succeeds_ok, true_and]
      exact succeeds_bind_pure

/-- A search that covers a session has a literal. -/
theorem quote_mem_of_covers {spl : Text} {session : LeadSession} (h : spl_covers_lead_session spl session = true) :
    '"' ∈ normalizeSpaces spl := by
  rw [spl_covers_lead_session, Bool.and_eq_true, Bool.or_eq_true] at h
  -- whichever order the fields are in, the session id is one of them
  have hall : ∀ ordering : List Text, ordering.Perm (session.items.map predicate) →
      conjoined ordering <:+: normalizeSpaces spl → '"' ∈ normalizeSpaces spl := by
    intro ordering hperm hinfix
    obtain ⟨id, hid⟩ := Option.isSome_iff_exists.mp h.1
    have hitem : ("session_id".toList, id) ∈ session.items := by simp [LeadSession.items, hid]
    have hmem := hperm.mem_iff.mpr (List.mem_map_of_mem (f := predicate) hitem)
    refine hinfix.subset (List.mem_cons_of_mem _ (List.mem_append_left _ ((infix_join hmem).subset ?_)))
    simp [predicate, spl_literal]
  rcases h.2 with hcovers | hcovers
  · exact hall _ (.refl _) (of_decide_eq_true hcovers)
  · obtain ⟨ordering, hperm, hcovers⟩ := List.any_eq_true.mp hcovers
    exact hall ordering (List.mem_permutations.mp hperm) (by simpa using hcovers)

/-- What a decision that has to cover all sessions needs in order to be widened. -/
def Widenable (py : LeadSessions.Interpreter) (b : Batch) (sessions : List LeadSession) (d : FollowUpDecision) : Prop :=
  ∀ p ∈ d.proposal, b.requiresCoverage py d = true → spl_covers_all_lead_sessions p.spl sessions = false →
    Succeeds (parse_spl py.db p.spl) ∧ sessions.length ≤ 64

theorem succeeds_widenDecision {sessions : List LeadSession} (hne : sessions ≠ [])
    (hids : ∀ session ∈ sessions, session.session_id.isSome = true) {d : FollowUpDecision} :
    Succeeds (b.widenDecision py sessions d) ↔ Widenable py b sessions d := by
  rw [widenDecision, Widenable]
  cases hproposal : d.proposal with
  | none => simp
  | some p =>
      simp only [Option.mem_some_iff, forall_eq']
      split
      next h =>
        refine iff_of_true (succeeds_ok _) fun hrequires hcovers => ?_
        simp [hrequires, hcovers] at h
      next h =>
        simp only [Bool.or_eq_true, Bool.not_eq_true', not_or, Bool.not_eq_false, Bool.not_eq_true] at h
        rw [← succeeds_widen_spl hne hids]
        cases widen_spl_for_lead_sessions py p.spl sessions with
        | ok spl => simp
        | error message => simp [h.1, h.2]

/-- Where two sessions are retained, every decision that has to cover them can be widened. -/
def CoverageReachable (py : LeadSessions.Interpreter) (b : Batch) (ds : List FollowUpDecision) : Prop :=
  ∀ sessions, b.sessions py = .ok sessions → 2 ≤ sessions.length → ∀ d ∈ ds, Widenable py b sessions d

theorem succeeds_widen {ds : List FollowUpDecision} :
    Succeeds (b.widen py ds) ↔ LeadsReadable py b ∧ CoverageReachable py b ds := by
  rw [widen, ← succeeds_sessions, succeeds_bind fun sessions hsessions => ?_]
  rw [CoverageReachable, hsessions]
  simp only [Except.ok.injEq, forall_eq']
  split
  next h => exact iff_of_true (succeeds_pure _) fun h' => absurd h' (Nat.not_le.mpr h)
  next h =>
    have hlength : 2 ≤ sessions.length := Nat.le_of_not_lt h
    obtain ⟨leads, -, hfilters⟩ := bind_eq_ok.mp hsessions
    obtain ⟨_, -, hfilters⟩ := bind_eq_ok.mp hfilters
    cases hfilters
    have hne : retained_lead_session_filters _ ≠ [] := List.ne_nil_of_length_pos (Nat.lt_of_lt_of_le (by decide) hlength)
    rw [succeeds_mapM]
    simp only [succeeds_widenDecision hne fun _ => session_id_of_mem, hlength, true_implies]

/-- A decision that was widened is not widened again, if squeezing leaves the conjunctions of the sessions as they are. -/
theorem widenDecision_widened {sessions : List LeadSession} {d d' : FollowUpDecision}
    (h : b.widenDecision py sessions d = .ok d') (hsessions : ∀ session ∈ sessions, session.session_id.isSome = true ∧
      Squeezed isSpace ' ' (lead_session_and_branch session)) : b.widenDecision py sessions d' = .ok d' := by
  rw [widenDecision] at h
  split at h
  next hnone =>
    cases h
    rw [widenDecision, hnone]
  next p hproposal =>
    split at h
    next hkept =>
      cases h
      rw [widenDecision, hproposal]
      exact if_pos hkept
    · split at h
      next spl hspl =>
        cases h
        rw [widenDecision]
        exact if_pos (by rw [covers_widened hspl hsessions, Bool.or_true])
      next => cases h

/-- **Widening once.** Decisions that were widened for the retained sessions are widened for them already: the second pass,
after a repair, leaves those that the first one accepted as they are. -/
theorem widen_widened {ds ds' : List FollowUpDecision} (h : b.widen py ds = .ok ds')
    (hsessions : ∀ sessions, b.sessions py = .ok sessions → ∀ session ∈ sessions,
      Squeezed isSpace ' ' (lead_session_and_branch session)) : b.widen py ds' = .ok ds' := by
  obtain ⟨sessions, hfound, hwidened⟩ := bind_eq_ok.mp h
  clear h
  rw [widen, hfound, ok_bind]
  split at hwidened
  next hfew =>
    cases hwidened
    exact if_pos hfew
  next hmany =>
    rw [if_neg hmany]
    obtain ⟨leads, -, hfilters⟩ := bind_eq_ok.mp hfound
    obtain ⟨_, -, hfilters⟩ := bind_eq_ok.mp hfilters
    cases hfilters
    have hall := forall₂_of_mapM hwidened
    clear hwidened
    induction hall with
    | nil => rfl
    | cons hd _ ih =>
        rw [List.mapM_cons, widenDecision_widened hd fun session hsession =>
          ⟨session_id_of_mem hsession, hsessions _ hfound session hsession⟩, ok_bind, ih]
        rfl

/-- Widening keeps a decision or changes the text of its search. -/
def Widens (d d' : FollowUpDecision) : Prop :=
  d' = d ∨ ∃ p spl, d.proposal = some p ∧ d' = { d with proposal := some { p with spl } }

theorem widenDecision_widens {sessions : List LeadSession} {d d' : FollowUpDecision}
    (h : b.widenDecision py sessions d = .ok d') : Widens d d' := by
  rw [widenDecision] at h
  split at h
  · exact .inl (Except.ok.inj h).symm
  next p hproposal =>
    split at h
    · exact .inl (Except.ok.inj h).symm
    · split at h
      next spl _ => exact .inr ⟨p, spl, hproposal, (Except.ok.inj h).symm⟩
      next => cases h

theorem widen_widens {ds ds' : List FollowUpDecision} (h : b.widen py ds = .ok ds') : List.Forall₂ Widens ds ds' := by
  obtain ⟨sessions, -, h⟩ := bind_eq_ok.mp h
  split at h
  · cases h
    exact List.forall₂_same.mpr fun d _ => .inl rfl
  · exact (forall₂_of_mapM h).imp fun d d' hd => widenDecision_widens hd

/-! ### Grounding -/

/-- The rows a question cites can be read, and no row has a container for an evidence id. -/
def CitedReadable (py : LeadSessions.Interpreter) (b : Batch) (question : Question) : Prop :=
  ∀ row ∈ b.retained_evidence, (∀ items, value row "evidence_id" ≠ .array items) ∧
    (∀ ms, value row "evidence_id" ≠ .object ms) ∧
    (cites question.source_evidence_ids row = .ok true →
      py.text (value row "query_id") = py.text (((b.details question).source_query_id.map Json.string).getD .null) →
        Readable py.json py.calls (value row "selected_result"))

theorem succeeds_entityValues {question : Question} :
    Succeeds (b.entityValues py question) ↔ CitedReadable py b question := by
  rw [entityValues, succeeds_bind_pure, succeeds_mapM, CitedReadable]
  refine forall₂_congr fun row _ => ?_
  rw [citedValues]
  have hcites : Succeeds (cites question.source_evidence_ids row) ↔
      (∀ items, value row "evidence_id" ≠ .array items) ∧ ∀ ms, value row "evidence_id" ≠ .object ms := by
    rw [cites]
    cases value row "evidence_id" <;> simp
  rw [← and_assoc, ← hcites]
  cases hcited : cites question.source_evidence_ids row with
  | error e => simp
  | ok cited =>
      rw [ok_bind]
      simp only [succeeds_ok, true_and, Except.ok.injEq]
      cases cited with
      | false => simp
      | true =>
          simp only [Bool.true_and, true_implies, decide_eq_true_eq]
          split
          next hsame => rw [succeeds_bind_pure, succeeds_scalars]; simp [hsame]
          next hsame => simp [hsame]

/-- A proposal uses a value that the evidence of its question has, if that has any. -/
def Grounded (py : LeadSessions.Interpreter) (b : Batch) (p : QueryProposal) : Prop :=
  ∃ question values, b.question (String.ofList p.question_id) = some question ∧
    b.entityValues py question = .ok values ∧ usesValue py values p = true

/-- Proposals for different questions of the batch. -/
structure Proposed (b : Batch) (ps : List QueryProposal) : Prop where
  known : ∀ p ∈ ps, ∃ question, b.question (String.ofList p.question_id) = some question
  different : (ps.map (·.question_id)).Nodup

theorem Proposed.tail {p : QueryProposal} {ps : List QueryProposal} (h : Proposed b (p :: ps)) :
    Proposed b ps ∧ ∀ q ∈ ps, p.question_id ≠ q.question_id := by
  obtain ⟨hknown, hdifferent⟩ := h
  rw [List.map_cons, List.nodup_cons] at hdifferent
  refine ⟨⟨fun q hq => hknown q (List.mem_cons_of_mem _ hq), hdifferent.2⟩, fun q hq hsame => hdifferent.1 ?_⟩
  exact hsame ▸ List.mem_map_of_mem hq

/-- The reason of a rejection for want of a value. -/
def ungrounded : String := "follow-up query did not use an evidence-grounded pivot value"

theorem proposalErrors_cons {seen : List Text} {p : QueryProposal} {ps : List QueryProposal} {question : Question}
    (hquestion : b.question (String.ofList p.question_id) = some question) (hseen : p.question_id ∉ seen) :
    b.proposalErrors py seen (p :: ps) = (do
      let values ← b.entityValues py question
      if usesValue py values p then b.proposalErrors py (p.question_id :: seen) ps
      else
        return (p.question_id, ungrounded) :: (← b.proposalErrors py seen ps)) := by
  rw [proposalErrors, hquestion]
  simp only [if_neg hseen]
  rfl

/-- Finding the errors needs the rows that the questions of the proposals cite. -/
theorem succeeds_proposalErrors {ps : List QueryProposal} (hps : Proposed b ps) :
    ∀ seen : List Text, (∀ p ∈ ps, p.question_id ∉ seen) → (Succeeds (b.proposalErrors py seen ps) ↔
      ∀ p ∈ ps, ∀ question, b.question (String.ofList p.question_id) = some question → CitedReadable py b question) := by
  induction ps with
  | nil => exact fun seen _ => iff_of_true (succeeds_ok _) (by simp)
  | cons p ps ih =>
      intro seen hseen
      obtain ⟨question, hquestion⟩ := hps.known p List.mem_cons_self
      have hrest := hps.tail
      -- the loop goes on with the question seen or not, as its proposal is grounded or not; no later one is on it
      have hskip := ih hrest.1 seen fun q hq => hseen q (List.mem_cons_of_mem _ hq)
      have hnext := ih hrest.1 (p.question_id :: seen) fun q hq => List.not_mem_cons_of_ne_of_not_mem
        (Ne.symm (hrest.2 q hq)) (hseen q (List.mem_cons_of_mem _ hq))
      have hround : ∀ values, b.entityValues py question = .ok values →
          (Succeeds (if usesValue py values p then b.proposalErrors py (p.question_id :: seen) ps
            else do return (p.question_id, ungrounded) :: (← b.proposalErrors py seen ps)) ↔
          ∀ p ∈ ps, ∀ question, b.question (String.ofList p.question_id) = some question → CitedReadable py b question) := by
        intro values _
        split
        · exact hnext
        · exact succeeds_bind_pure.trans hskip
      rw [proposalErrors_cons hquestion (hseen p List.mem_cons_self), succeeds_bind hround, succeeds_entityValues,
        List.forall_mem_cons, hquestion]
      simp only [Option.some.injEq, forall_eq']

/-- The errors are those of the proposals that are not grounded. -/
theorem mem_proposalErrors {ps : List QueryProposal} (hps : Proposed b ps) :
    ∀ (seen : List Text) (errors : List (Text × String)), (∀ p ∈ ps, p.question_id ∉ seen) →
      b.proposalErrors py seen ps = .ok errors →
        ∀ e, e ∈ errors ↔ ∃ p ∈ ps, ¬Grounded py b p ∧ e = (p.question_id, ungrounded) := by
  induction ps with
  | nil =>
      intro seen errors _ h
      cases h
      simp
  | cons p ps ih =>
      intro seen errors hseen h
      obtain ⟨question, hquestion⟩ := hps.known p List.mem_cons_self
      have hrest := hps.tail
      rw [proposalErrors_cons hquestion (hseen p List.mem_cons_self)] at h
      obtain ⟨values, hvalues, h⟩ := bind_eq_ok.mp h
      have hgrounded : Grounded py b p ↔ usesValue py values p = true := by
        refine ⟨?_, fun huses => ⟨question, values, hquestion, hvalues, huses⟩⟩
        rintro ⟨question', values', hquestion', hvalues', huses⟩
        obtain rfl := Option.some.inj (hquestion.symm.trans hquestion')
        obtain rfl := Except.ok.inj (hvalues.symm.trans hvalues')
        exact huses
      simp only [List.mem_cons, exists_eq_or_imp]
      split at h
      next huses =>
        intro e
        rw [ih hrest.1 (p.question_id :: seen) errors (fun q hq => List.not_mem_cons_of_ne_of_not_mem
          (Ne.symm (hrest.2 q hq)) (hseen q (List.mem_cons_of_mem _ hq))) h e]
        simp [hgrounded.mpr huses]
      next huses =>
        obtain ⟨errors', herrors', h⟩ := bind_eq_ok.mp h
        cases h
        intro e
        rw [List.mem_cons, ih hrest.1 seen errors' (fun q hq => hseen q (List.mem_cons_of_mem _ hq)) herrors' e]
        simp [mt hgrounded.mp huses]

/-- The rejections of the application are those of the proposals that are not grounded. -/
theorem mem_applicationRejections {ps : List QueryProposal} (hps : Proposed b ps) {errors : List (Text × String)}
    (h : b.follow_up_proposal_errors py ps = .ok errors) {r : PolicyRejection} :
    r ∈ applicationRejections errors ps ↔ ∃ p ∈ ps, ¬Grounded py b p ∧ r = ⟨none, p, [ungrounded]⟩ := by
  have hmem := mem_proposalErrors hps [] errors (by simp) h
  have herror : ∀ p ∈ ps, ∀ reason, errorOf errors p = some reason ↔ ¬Grounded py b p ∧ reason = ungrounded := by
    intro p hp reason
    -- the last error of a question is the only one, as no two proposals are on one question
    have hsome : ∀ reason, errorOf errors p = some reason → ¬Grounded py b p ∧ reason = ungrounded := by
      intro reason hreason
      obtain ⟨e, hfind, rfl⟩ := Option.map_eq_some_iff.mp hreason
      have hid : e.1 = p.question_id := by simpa using List.find?_some hfind
      obtain ⟨q, hq, hungrounded, rfl⟩ := (hmem e).mp (List.mem_reverse.mp (List.mem_of_find?_eq_some hfind))
      obtain rfl := List.inj_on_of_nodup_map hps.different hq hp hid
      exact ⟨hungrounded, rfl⟩
    refine ⟨hsome reason, ?_⟩
    rintro ⟨hungrounded, hreason⟩
    have hisSome : (errors.reverse.find? (·.1 = p.question_id)).isSome := by
      refine List.find?_isSome.mpr ⟨(p.question_id, ungrounded), ?_, by simp⟩
      exact List.mem_reverse.mpr ((hmem _).mpr ⟨p, hp, hungrounded, rfl⟩)
    obtain ⟨e, hfind⟩ := Option.isSome_iff_exists.mp hisSome
    have hfound : errorOf errors p = some e.2 := by rw [errorOf, hfind]; rfl
    rw [hfound, (hsome _ hfound).2, hreason]
  rw [applicationRejections, List.mem_filterMap]
  constructor
  · rintro ⟨p, hp, hr⟩
    obtain ⟨reason, hreason, rfl⟩ := Option.map_eq_some_iff.mp hr
    obtain ⟨hungrounded, rfl⟩ := (herror p hp reason).mp hreason
    exact ⟨p, hp, hungrounded, rfl⟩
  · rintro ⟨p, hp, hungrounded, hr⟩
    refine ⟨p, hp, ?_⟩
    rw [(herror p hp ungrounded).mpr ⟨hungrounded, rfl⟩, Option.map_some, hr]

/-! ### Judging -/

/-- The policy judges every proposal. -/
theorem succeeds_judge (ids : Option (List String)) (p : QueryProposal) : Succeeds (b.judge py ids p) := by
  obtain ⟨v, hv, -⟩ := SPLPolicy.validate_judges py.db b.cache_digest b.policy p (ids.map (·.map (·.toList)))
  exact ⟨v, judge_eq_ok.mpr hv⟩

theorem succeeds_validated (uuid : Nat → Uuid) (ps : List QueryProposal) : Succeeds (b.validated py uuid ps) := by
  rw [validated, succeeds_mapM]
  exact fun x _ => succeeds_bind_pure.mpr (succeeds_judge _ _)

/-- The policy allows a proposal with the questions of the plan and of the batch. -/
def Allowed (py : LeadSessions.Interpreter) (b : Batch) (p : QueryProposal) : Prop :=
  ∃ v, b.judge py (some b.allowed_question_ids) p = .ok v ∧ v.allowed = true

/-- The rejections of the policy are those of the proposals that it does not allow, with its reasons. -/
theorem mem_rejections {uuid : Nat → Uuid} {ps : List QueryProposal}
    {validated : List (QueryProposal × Uuid × QueryValidationResult)} (h : b.validated py uuid ps = .ok validated) :
    (∀ r ∈ rejections validated, r.proposal ∈ ps ∧ ¬Allowed py b r.proposal) ∧
      ∀ p ∈ ps, ¬Allowed py b p → ∃ query_id v, b.judge py (some b.allowed_question_ids) p = .ok v ∧
        ⟨some query_id, p, v.reason_codes⟩ ∈ rejections validated := by
  constructor
  · intro r hr
    obtain ⟨x, hx, rfl⟩ := List.mem_map.mp hr
    obtain ⟨hx, hrejected⟩ := List.mem_filter.mp hx
    obtain ⟨hmem, hjudge⟩ := judge_of_mem_validated h hx
    refine ⟨hmem, ?_⟩
    rintro ⟨v, hv, hallowed⟩
    obtain rfl := Except.ok.inj (hjudge.symm.trans hv)
    simp [hallowed] at hrejected
  · intro p hp hrejected
    obtain ⟨n, hn, rfl⟩ := List.getElem_of_mem hp
    have hnth : (ps[n], n) ∈ ps.zipIdx := List.mk_mem_zipIdx_iff_getElem?.mpr (List.getElem?_eq_getElem hn)
    obtain ⟨x, hx, hjudged⟩ := (mem_of_mapM h).2 (ps[n], n) hnth
    obtain ⟨v, hv, hjudged⟩ := bind_eq_ok.mp hjudged
    cases hjudged
    refine ⟨uuid n, v, hv, List.mem_map.mpr ⟨_, List.mem_filter.mpr ⟨hx, ?_⟩, rfl⟩⟩
    simpa using fun hallowed => hrejected ⟨v, hv, hallowed⟩

/-! ### The first pass -/

/-- A proposal that is searched unless another search covers it. -/
structure Admissible (py : LeadSessions.Interpreter) (b : Batch) (p : QueryProposal) : Prop where
  grounded : Grounded py b p
  allowed : Allowed py b p

/-- What the first pass over answers is to make of them. -/
structure Reviewed (py : LeadSessions.Interpreter) (b : Batch) (answered : List FollowUpDecision) (pass : Pass) : Prop where
  /-- Each decision is kept, or its search is widened. -/
  decisions : List.Forall₂ Widens (ordered b.follow_up_ids answered) pass.decisions
  /-- A decision is accepted exactly if its proposal is admissible, where it has one. -/
  accepted : ∀ d ∈ pass.decisions, d ∈ pass.accepted ↔ ∀ p ∈ d.proposal, Admissible py b p
  /-- The others are rejected, each for what it is not. -/
  ungrounded : ∀ d ∈ pass.decisions, ∀ p ∈ d.proposal, ¬Grounded py b p → ⟨none, p, [ungrounded]⟩ ∈ pass.rejected
  refused : ∀ d ∈ pass.decisions, ∀ p ∈ d.proposal, ¬Allowed py b p → ∃ query_id v,
    b.judge py (some b.allowed_question_ids) p = .ok v ∧ ⟨some query_id, p, v.reason_codes⟩ ∈ pass.rejected
  /-- Their questions are those that the repair is asked for. -/
  repaired : ∀ d ∈ pass.decisions, d.question_id ∈ b.repair_ids pass ↔ d ∉ pass.accepted

/-- The first pass raises nothing and reviews the answers. -/
def Handled (py : LeadSessions.Interpreter) (b : Batch) (uuid : Nat → Uuid) (answered : List FollowUpDecision) : Prop :=
  ∃ pass, b.firstPass py uuid answered = .ok pass ∧ Reviewed py b answered pass

/-- What the first pass needs of the rows and of the answers. -/
structure Reviewable (py : LeadSessions.Interpreter) (b : Batch) (answered : List FollowUpDecision) : Prop where
  leads : LeadsReadable py b
  coverage : CoverageReachable py b (ordered b.follow_up_ids answered)
  cited : ∀ p ∈ (ordered b.follow_up_ids answered).filterMap (·.proposal), ∀ question,
    b.question (String.ofList p.question_id) = some question → CitedReadable py b question

theorem question_isSome {id : String} (h : id ∈ b.follow_up_ids) : ∃ question, b.question id = some question := by
  obtain ⟨q, hq, rfl⟩ := List.mem_map.mp h
  exact Option.isSome_iff_exists.mp (List.find?_isSome.mpr ⟨q, List.mem_reverse.mpr hq, by simp⟩)

/-- One decision for each question has proposals for different questions. -/
theorem Answers.proposed {ds : List FollowUpDecision} (h : Answers b.follow_up_ids ds) :
    Proposed b (ds.filterMap (·.proposal)) where
  known p hp := by
    obtain ⟨d, hd, hproposal⟩ := List.mem_filterMap.mp hp
    rw [h.named d hd p hproposal, String.ofList_toList]
    exact question_isSome (h.question_ids ▸ List.mem_map_of_mem hd)
  different := by
    have hnodup : (ds.map (·.question_id)).Nodup := h.question_ids ▸ nodup_follow_up_ids b
    rw [List.Nodup, List.pairwise_map] at hnodup ⊢
    rw [List.pairwise_filterMap]
    refine hnodup.imp_of_mem fun {d d'} hd hd' hne p hp p' hp' hsame => hne ?_
    rw [h.named d hd p hp, h.named d' hd' p' hp'] at hsame
    exact String.toList_inj.mp hsame

/-- Widening leaves the questions of the proposals as they are. -/
theorem map_question_id_of_widens {ds ds' : List FollowUpDecision} (h : List.Forall₂ Widens ds ds') :
    (ds'.filterMap (·.proposal)).map (·.question_id) = (ds.filterMap (·.proposal)).map (·.question_id) := by
  induction h with
  | nil => rfl
  | @cons d d' ds ds' hd _ ih =>
      rcases hd with rfl | ⟨p, spl, hproposal, rfl⟩
      · cases hproposal : d'.proposal with
        | none => simp [hproposal, ih]
        | some p => simp [hproposal, ih]
      · simp [hproposal, ih]

theorem reviewed_of_firstPass {uuid : Nat → Uuid} {answered : List FollowUpDecision} {pass : Pass}
    (hanswered : Contract.accepts (.follow_up_decisions b.follow_up_ids) answered = true)
    (h : b.firstPass py uuid answered = .ok pass) : Reviewed py b answered pass := by
  obtain ⟨decisions, hwiden, h⟩ := bind_eq_ok.mp h
  obtain ⟨errors, herrors, h⟩ := bind_eq_ok.mp h
  obtain ⟨validated, hvalidated, h⟩ := bind_eq_ok.mp h
  cases h
  have hanswers : Answers b.follow_up_ids decisions :=
    (answers_ordered (mem_of_accepts hanswered) (named_of_accepts hanswered)).kept (widen_kept hwiden)
  have hps := hanswers.proposed
  have happlication := fun r => @mem_applicationRejections py b _ hps errors herrors r
  have hpolicy := mem_rejections hvalidated
  have hproposal : ∀ d ∈ decisions, ∀ p ∈ d.proposal, p ∈ decisions.filterMap (·.proposal) := fun d hd p hp =>
    List.mem_filterMap.mpr ⟨d, hd, hp⟩
  have hungrounded : ∀ d ∈ decisions, ∀ p ∈ d.proposal, ¬Grounded py b p →
      ⟨none, p, [ungrounded]⟩ ∈ applicationRejections errors (decisions.filterMap (·.proposal)) ++ rejections validated :=
    fun d hd p hp hnot => List.mem_append_left _ ((happlication _).mpr ⟨p, hproposal d hd p hp, hnot, rfl⟩)
  have hrefused : ∀ d ∈ decisions, ∀ p ∈ d.proposal, ¬Allowed py b p → ∃ query_id v,
      b.judge py (some b.allowed_question_ids) p = .ok v ∧ ⟨some query_id, p, v.reason_codes⟩ ∈
        applicationRejections errors (decisions.filterMap (·.proposal)) ++ rejections validated := by
    intro d hd p hp hnot
    obtain ⟨query_id, v, hv, hmem⟩ := hpolicy.2 p (hproposal d hd p hp) hnot
    exact ⟨query_id, v, hv, List.mem_append_right _ hmem⟩
  let pass : Pass := ⟨decisions, applicationRejections errors (decisions.filterMap (·.proposal)) ++ rejections validated⟩
  -- a question is rejected exactly if the proposal on it is not admissible
  have hrejected : ∀ d ∈ decisions, d.question_id ∈ pass.rejected_ids ↔ ¬∀ p ∈ d.proposal, Admissible py b p := by
    intro d hd
    rw [Pass.rejected_ids, List.mem_map]
    constructor
    · rintro ⟨r, hr, hid⟩ hall
      have hr' : r.proposal ∈ decisions.filterMap (·.proposal) ∧ ¬Admissible py b r.proposal := by
        rcases List.mem_append.mp hr with hr | hr
        · obtain ⟨p, hp, hnot, rfl⟩ := (happlication r).mp hr
          exact ⟨hp, fun hadmissible => hnot hadmissible.grounded⟩
        · obtain ⟨hp, hnot⟩ := hpolicy.1 r hr
          exact ⟨hp, fun hadmissible => hnot hadmissible.allowed⟩
      obtain ⟨d', hd', hp'⟩ := List.mem_filterMap.mp hr'.1
      rw [hanswers.named d' hd' _ hp', String.ofList_toList] at hid
      have hnodup : (decisions.map (·.question_id)).Nodup := hanswers.question_ids ▸ nodup_follow_up_ids b
      obtain rfl := List.inj_on_of_nodup_map hnodup hd' hd hid
      exact hr'.2 (hall _ hp')
    · intro hnot
      simp only [not_forall] at hnot
      obtain ⟨p, hp, hnot⟩ := hnot
      have hid : String.ofList p.question_id = d.question_id := by rw [hanswers.named d hd p hp, String.ofList_toList]
      by_cases hgrounded : Grounded py b p
      · obtain ⟨query_id, v, -, hmem⟩ := hrefused d hd p hp fun hallowed => hnot ⟨hgrounded, hallowed⟩
        exact ⟨_, hmem, hid⟩
      · exact ⟨_, hungrounded d hd p hp hgrounded, hid⟩
  have haccepted : ∀ d ∈ decisions, d ∈ pass.accepted ↔ d.question_id ∉ pass.rejected_ids := by
    intro d hd
    rw [Pass.accepted, List.mem_filter]
    simpa using fun _ => hd
  refine ⟨widen_widens hwiden, fun d hd => ?_, hungrounded, hrefused, fun d hd => ?_⟩
  · rw [haccepted d hd, hrejected d hd, not_not]
  · rw [haccepted d hd, not_not, repair_ids, List.mem_filter]
    have hmem : d.question_id ∈ b.follow_up_ids := hanswers.question_ids ▸ List.mem_map_of_mem hd
    simp [hmem, pass]

/-- **The first pass.** It raises nothing, and reviews every answer, exactly if the rows can be read and each search that is
to cover several sessions can be parsed and the sessions counted. -/
theorem handled_iff {uuid : Nat → Uuid} {answered : List FollowUpDecision}
    (hanswered : Contract.accepts (.follow_up_decisions b.follow_up_ids) answered = true) :
    Handled py b uuid answered ↔ Reviewable py b answered := by
  have hanswers := answers_ordered (mem_of_accepts hanswered) (named_of_accepts hanswered)
  -- widening leaves the questions of the proposals, and with them the rows they cite
  have herrors : ∀ ds, b.widen py (ordered b.follow_up_ids answered) = .ok ds →
      (Succeeds (b.follow_up_proposal_errors py (ds.filterMap (·.proposal))) ↔
        ∀ p ∈ (ordered b.follow_up_ids answered).filterMap (·.proposal), ∀ question,
          b.question (String.ofList p.question_id) = some question → CitedReadable py b question) := by
    intro ds hwiden
    rw [follow_up_proposal_errors, succeeds_proposalErrors (hanswers.kept (widen_kept hwiden)).proposed [] (by simp)]
    have hids := map_question_id_of_widens (widen_widens hwiden)
    have hall := congrArg (fun ids : List Text => ∀ id ∈ ids, ∀ question, b.question (String.ofList id) = some question →
      CitedReadable py b question) hids
    simp only [List.forall_mem_map] at hall
    exact iff_of_eq hall
  constructor
  · rintro ⟨pass, hpass, -⟩
    obtain ⟨ds, hwiden, hpass⟩ := bind_eq_ok.mp hpass
    obtain ⟨errors, hfound, -⟩ := bind_eq_ok.mp hpass
    obtain ⟨hleads, hcoverage⟩ := succeeds_widen.mp ⟨ds, hwiden⟩
    exact ⟨hleads, hcoverage, (herrors ds hwiden).mp ⟨errors, hfound⟩⟩
  · rintro ⟨hleads, hcoverage, hcited⟩
    obtain ⟨ds, hwiden⟩ := succeeds_widen.mpr ⟨hleads, hcoverage⟩
    obtain ⟨errors, hfound⟩ := (herrors ds hwiden).mpr hcited
    obtain ⟨validated, hvalidated⟩ := @succeeds_validated py b uuid (ds.filterMap (·.proposal))
    have hpass : b.firstPass py uuid answered =
        .ok ⟨ds, applicationRejections errors (ds.filterMap (·.proposal)) ++ rejections validated⟩ := by
      rw [firstPass, hwiden, ok_bind]
      dsimp only
      rw [hfound, ok_bind, hvalidated]
      rfl
    exact ⟨_, hpass, reviewed_of_firstPass hanswered hpass⟩

/-- A row with a file of the advisory, in a session. -/
def leadRow (evidence_id session_id : String) : Members :=
  [("query_id", .string "query-1"), ("evidence_id", .string evidence_id),
    ("selected_result", .object [("host", .string "host-1"), ("session_id", .string session_id), ("file", .string "a.exe")])]

/-- A question, with leads in two sessions. -/
def leadsBatch (question : String) : Batch :=
  sampleBatch [samplePlanQuestion "question-1" question] [leadRow "evidence-1" "1", leadRow "evidence-2" "2"]
    "[file:name = 'a.exe']"

/-- The sessions of these leads. -/
theorem sessions_leadsBatch (question : String) : (leadsBatch question).sessions asciiPython =
    .ok [⟨some "host-1".toList, none, some ['1']⟩, ⟨some "host-1".toList, none, some ['2']⟩] := by
  show (leadsBatch "hosts").sessions asciiPython = _
  decide +kernel

/-- A search for all leads that can be parsed is widened for both sessions. -/
theorem succeeds_widen_sample : Succeeds ((leadsBatch "authentication of all leads").widen asciiPython
    [sampleDecision "question-1" "search index=main sourcetype=a"]) := by
  have hparses : (parse_spl asciiPython.db "search index=main sourcetype=a".toList).toBool = true := by decide
  refine succeeds_widen.mpr ⟨succeeds_sessions.mp ⟨_, sessions_leadsBatch _⟩, ?_⟩
  intro sessions hsessions _ d hd p hp _ _
  rw [List.mem_singleton] at hd
  subst hd
  cases hp
  rw [sessions_leadsBatch] at hsessions
  cases hsessions
  exact ⟨exists_of_toBool hparses, by decide⟩

theorem handled_iff_sample : Handled asciiPython (leadsBatch "authentication of all leads") (fun _ => "query-2")
    [sampleDecision "question-1" "search index=main sourcetype=a"] := by
  let d := sampleDecision "question-1" "search index=main sourcetype=a"
  let b := leadsBatch "authentication of all leads"
  have hanswered : Contract.accepts (.follow_up_decisions b.follow_up_ids) [d] = true := by decide
  have hordered : ordered b.follow_up_ids [d] = [d] := by decide
  obtain ⟨hleads, hcoverage⟩ := succeeds_widen.mp succeeds_widen_sample
  refine (handled_iff hanswered).mpr ⟨hleads, ?_, fun _ _ _ _ row hrow => absurd hrow List.not_mem_nil⟩
  rwa [hordered]

theorem widen_widened_sample : ∃ ds, (leadsBatch "authentication of all leads").widen asciiPython
      [sampleDecision "question-1" "search index=main sourcetype=a"] = .ok ds ∧
    (leadsBatch "authentication of all leads").widen asciiPython ds = .ok ds := by
  obtain ⟨ds, hds⟩ := succeeds_widen_sample
  refine ⟨ds, hds, widen_widened hds fun sessions hsessions session hsession => ?_⟩
  rw [sessions_leadsBatch] at hsessions
  cases hsessions
  rcases List.mem_pair.mp hsession with rfl | rfl
  · exact ⟨by decide, by decide⟩
  · exact ⟨by decide, by decide⟩

/-- A search for all leads with a command that is not allowed: the policy refuses it, with a reason, but the pass has raised
before. -/
theorem first_pass_raises :
    let d := sampleDecision "question-1" "search index=main sourcetype=a | outputlookup x"
    let b := leadsBatch "authentication of all leads"
    Contract.accepts (.follow_up_decisions b.follow_up_ids) [d] = true ∧
      (∀ p ∈ d.proposal, ∃ v, b.judge asciiPython (some b.allowed_question_ids) p = .ok v ∧
        v.allowed = false ∧ v.reason_codes ≠ []) ∧
      b.widen asciiPython (ordered b.follow_up_ids [d]) = .error (.validation
        "follow-up query cannot cover all retained advisory lead sessions: SPL command is not allowed: outputlookup") ∧
      ¬Handled asciiPython b (fun _ => "query-2") [d] := by
  intro d b
  let p : QueryProposal := { Spl.singleSourceProposal "search index=main sourcetype=a | outputlookup x" with
    question_id := "question-1".toList }
  have hordered : ordered b.follow_up_ids [d] = [d] := by decide
  have hrequires : b.requiresCoverage asciiPython d = true := by decide
  have hquote : '"' ∉ normalizeSpaces p.spl := by decide
  have hcovers : ∀ session sessions, spl_covers_all_lead_sessions p.spl (session :: sessions) = false := by
    intro session sessions
    rw [Bool.eq_false_iff]
    intro h
    exact hquote (quote_mem_of_covers (List.all_eq_true.mp h session List.mem_cons_self))
  have hspl : ∀ sessions, widen_spl_for_lead_sessions asciiPython p.spl sessions =
      .error "SPL command is not allowed: outputlookup" := by
    have hparse : parse_spl asciiPython.db p.spl = .error (.valueError "SPL command is not allowed: outputlookup") := by
      decide
    intro sessions
    rw [widen_spl_for_lead_sessions, hparse]
  have hwiden : b.widen asciiPython (ordered b.follow_up_ids [d]) = .error (.validation
      "follow-up query cannot cover all retained advisory lead sessions: SPL command is not allowed: outputlookup") := by
    have hproposal : d.proposal = some p := rfl
    rw [hordered, widen, sessions_leadsBatch, ok_bind, if_neg (by simp), List.mapM_cons, widenDecision, hproposal]
    simp only [hrequires, hcovers, hspl]
    rfl
  have hrefused : (b.judge asciiPython (some b.allowed_question_ids) p).toOption.any
      (fun v => !v.allowed && !v.reason_codes.isEmpty) = true := by decide
  refine ⟨by decide, fun q hq => ?_, hwiden, ?_⟩
  · cases hq
    obtain ⟨v, hv⟩ := @succeeds_judge asciiPython b (some b.allowed_question_ids) p
    rw [hv] at hrefused
    exact ⟨v, hv, by simpa [Except.toOption] using hrefused⟩
  · rintro ⟨pass, hpass, -⟩
    rw [firstPass, hwiden] at hpass
    cases hpass

end Batch

end FollowUps

end ThreatHunting
