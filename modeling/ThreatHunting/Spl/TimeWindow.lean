import ThreatHunting.Spl.Provenance

/-!
# ThreatHunting.Spl.TimeWindow

Can the text of an allowed query move the window it searches? `earliest` and `latest`
compared in the event-retrieving segment override the bounds submitted with the job.
`_INLINE_TIME` looks for some of their spellings in the raw text; the others reach the
field check, which lets them through only where the policy has discovered such a field.
-/

namespace ThreatHunting.Spl

open Fallible

variable {db : UnicodeData}

/-! ### Comparisons -/

/-- Does a token compare what stands before it? -/
def isComparison (operator : Text) : Bool :=
  operator ∈ comparators || upper operator == "IN".toList

/-- The left sides of the comparisons in a segment, as they are written. -/
def compared : List Text → List Text
  | token :: operator :: rest =>
      if isComparison operator then token :: compared (operator :: rest)
      else compared (operator :: rest)
  | _ => []

/-- `earliest` or `latest`, in any letter case. -/
def isTimeModifier (name : Text) : Bool := lower name ∈ ["earliest".toList, "latest".toList]

/-- The arguments of a search compare no time modifier, quoted or not. -/
def NoInlineTime (args : Text) : Prop :=
  ∃ tokens, fieldTokens args = some tokens ∧
    ∀ token ∈ compared tokens, isTimeModifier (Flow.nameOf token) = false

/-- The window of a validated query is the approved one: the job is submitted with bounds
inside it, and the segment that retrieves the events sets none of its own. -/
structure WindowKept (db : UnicodeData) (policy : SPLPolicy) (result : QueryValidationResult) : Prop where
  within : policy.approved_earliest_utc ≤ result.earliest_utc ∧
    result.latest_utc ≤ policy.approved_latest_utc
  first_segment : ∃ args rest,
    parseSegments db (pipelineParts result.normalized_spl) = .ok ((.search, args) :: rest) ∧
      NoInlineTime args

/-! ### What the field check establishes -/

theorem nameOf_mem_of_requireField {known : List Text} {token : Text}
    (h : requireField known token false = .ok ()) : Flow.nameOf token ∈ known := by
  rw [requireField] at h
  obtain ⟨name, hname, h⟩ := bind_eq_ok.mp h
  rw [Flow.nameOf, hname]
  by_cases hknown : name ∈ known
  · exact hknown
  · simp [hknown, fieldError] at h

/-- A search that passes the check compares known fields only. -/
theorem compared_mem_of_checkSearch {known tokens : List Text}
    (h : checkSearch known tokens = .ok ()) :
    ∀ token ∈ compared tokens, Flow.nameOf token ∈ known := by
  induction tokens with
  | nil => simp [compared]
  | cons token tokens ih =>
      cases tokens with
      | nil => simp [compared]
      | cons operator rest =>
          rw [checkSearch] at h
          rw [compared, isComparison]
          by_cases hcomparison : (operator ∈ comparators || upper operator == "IN".toList) = true
          · rw [if_pos hcomparison] at h ⊢
            obtain ⟨⟨⟩, hfirst, hrest⟩ := bind_eq_ok.mp h
            exact List.forall_mem_cons.mpr ⟨nameOf_mem_of_requireField hfirst, ih hrest⟩
          · rw [if_neg hcomparison] at h ⊢
            exact ih h

/-- The leading search of a checked text compares discovered and built-in fields only. -/
theorem compared_mem_of_checkSegments {known known' : List Text} {args : Text}
    {others : List Segment} (h : checkSegments db known ((.search, args) :: others) = .ok known') :
    ∃ tokens, fieldTokens args = some tokens ∧
      ∀ token ∈ compared tokens, Flow.nameOf token ∈ known := by
  rw [checkSegments] at h
  obtain ⟨middle, hfirst, -⟩ := bind_eq_ok.mp h
  obtain ⟨tokens, htokens, -⟩ := fieldTokens_of_checkSegment hfirst
  refine ⟨tokens, htokens, ?_⟩
  simp only [checkSegment, htokens] at hfirst
  obtain ⟨⟨⟩, hsearch, -⟩ := bind_eq_ok.mp hfirst
  exact compared_mem_of_checkSearch hsearch

/-! ### The first segment is written as it was read -/

/-- Normalising leaves the leading search alone. -/
theorem normalized_first_segment {value normalized : Text} {parsed : ParsedSPL}
    (hparsed : parse_spl db value = .ok parsed)
    (hnormalized : preserve_raw_source_fields parsed = .ok normalized) :
    ∃ args others rest, parsed.command_segments = (.search, args) :: others ∧
      parseSegments db (pipelineParts normalized) = .ok ((.search, args) :: rest) := by
  obtain ⟨⟨command, args⟩, others, hsegments, hsearch⟩ := command_segments_eq_cons hparsed
  have hsearch : command = .search := hsearch
  subst hsearch
  have hmem : ∀ s ∈ parsed.command_segments, '|' ∉ s.2 ∧ Trimmed s.2 :=
    fun s hs => mem_command_segments hparsed hs
  have htrim : strip args = args :=
    strip_of_trimmed (hmem _ (hsegments ▸ List.mem_cons_self)).2
  rw [preserve_raw_source_fields] at hnormalized
  split at hnormalized
  · -- an aggregate is written as it was parsed
    obtain rfl : parsed.normalized = normalized := Except.ok.inj hnormalized
    refine ⟨args, others, others.map fun s => (s.1, strip s.2), hsegments, ?_⟩
    rw [(parse_spl_eq_ok hparsed).2.1, hsegments,
      parseSegments_render rfl fun s hs => (hmem s (hsegments ▸ hs)).1, List.map_cons, htrim]
  · obtain ⟨kept, hkept, rfl⟩ := map_eq_ok.mp hnormalized
    have hpipes := preserveSegments_pipes hkept fun s hs => (hmem s hs).1
    rw [hsegments] at hkept
    obtain ⟨rest, -, -, rfl⟩ := preserveSegments_cons_eq_ok hkept
    have hfirst : (preserveSegment (.search, args)).1 = (.search, args) := rfl
    rw [hfirst] at hpipes ⊢
    refine ⟨args, others, rest.map fun s => (s.1, strip s.2), hsegments, ?_⟩
    rw [parseSegments_render rfl hpipes, List.map_cons, htrim]

/-! ### The window of an allowed query -/

section Allowed

variable {digest : CacheDigest} {policy : SPLPolicy} {proposal : QueryProposal}
  {open_question_ids : Option (List Text)} {result : QueryValidationResult}

/-- An allowed query is submitted with the bounds it was proposed with, which are approved. -/
theorem submitted_window (hresult : policy.validate db digest proposal open_question_ids = .ok result)
    (hallowed : result.allowed = true) :
    policy.approved_earliest_utc ≤ result.earliest_utc ∧
      result.latest_utc ≤ policy.approved_latest_utc := by
  rw [SPLPolicy.validate] at hresult
  obtain ⟨p, -, h⟩ := bind_eq_ok.mp hresult
  simp only [pure, Except.pure, Except.ok.injEq] at h
  subst h
  simp only [List.isEmpty_iff, SPLPolicy.rejectionReasons, List.append_eq_nil_iff,
    SPLPolicy.reasonIf_eq_nil] at hallowed
  have hwindow := hallowed.1.2
  simp only [Bool.or_eq_false_iff, decide_eq_false_iff_not] at hwindow
  exact ⟨not_lt.mp hwindow.1, not_lt.mp hwindow.2⟩

end Allowed

end ThreatHunting.Spl
