import ThreatHunting.Lib.RoundRobin
import ThreatHunting.Spl.Discovery

/-!
# ThreatHunting.Spl.Verdicts

`SPLPolicy.validate` judges every proposal: whatever its text is, a verdict is returned. `validate` catches only
`ValueError`, so this rests on the checks raising nothing else. The one that could is `aliases`, whose search for
the end of a capture would raise `StopIteration` if there were none; for a name that the pattern matches there
always is one.

The verdict rejects exactly where it gives reasons, and these are among a few fixed ones. Of the questions that are open it
asks only whether the proposal's is among them.
-/

namespace ThreatHunting.Spl

open Fallible

/-- What the field checks report. -/
def fieldReasons : List String := ["field_not_discovered", "field_syntax_not_supported", "function_not_allowed"]

/-- What `parse_spl` raises. -/
def IsRefusal (e : Raised) : Prop := ∃ message, e = .valueError message

/-- What the field checks raise. -/
def IsFieldReason (e : Raised) : Prop := ∃ message ∈ fieldReasons, e = .valueError message

/-- A field check raises nothing but its reasons. -/
abbrev Reports {α : Type} (x : Except Raised α) : Prop := Raises IsFieldReason x

section Reporting

variable {db : UnicodeData} {known : List Text}

theorem reports_fieldError {α : Type} {message : String} (h : message ∈ fieldReasons) :
    Reports (fieldError message : Except Raised α) :=
  .error ⟨message, h, rfl⟩

theorem reports_syntaxNotSupported {α : Type} : Reports (syntaxNotSupported : Except Raised α) :=
  reports_fieldError (by decide)

theorem reports_field_name (token : Text) : Reports (field_name token) := by
  rw [field_name]
  split
  · split
    · exact reports_syntaxNotSupported
    · exact .ok _
  · exact .ok _

theorem reports_requireField (token : Text) (wildcard : Bool) : Reports (requireField known token wildcard) := by
  refine (reports_field_name token).bind fun name _ => ?_
  split
  · exact .pure _
  · exact reports_fieldError (by decide)

theorem reports_expression (value : Text) (aggregate : Bool) : Reports (expression db known value aggregate) := by
  rw [expression]
  induction expressionTokens db value with
  | nil => exact .ok _
  | cons token rest ih =>
      have hrequire := (@reports_requireField known token false).bind fun _ _ => ih
      rw [checkExpression]
      split
      · exact hrequire
      split
      · split
        · split
          · exact (reports_fieldError (by decide)).bind fun _ _ => ih
          · exact ih
        · exact hrequire
      · exact ih

theorem reports_field_list (o : ListOptions) (tokens : List Text) : Reports (field_list db known o tokens) := by
  have hloop : ∀ fuel first tokens, Reports (fieldListLoop db known o fuel first tokens) := by
    intro fuel
    induction fuel with
    | zero => exact fun _ _ => .ok _
    | succ fuel ih =>
        intro first tokens
        cases tokens with
        | nil => exact .ok _
        | cons token rest =>
            rw [fieldListLoop]
            refine .ite (fun _ => ih _ _) fun _ => .ite (fun _ => ?_) fun _ => ih _ _
            exact (reports_requireField _ _).bind fun _ _ => ih _ _
  exact hloop _ _ _

theorem reports_checkSearch (tokens : List Text) : Reports (checkSearch known tokens) := by
  induction tokens with
  | nil => exact .ok _
  | cons token rest ih =>
      cases rest with
      | nil => exact .ok _
      | cons operator rest =>
          rw [checkSearch]
          split
          · exact (reports_requireField token false).bind fun _ _ => ih
          · exact ih

theorem reports_checkAssignment (assignment : List Text) : Reports (checkAssignment db known assignment) := by
  rw [checkAssignment]
  split
  · exact reports_syntaxNotSupported
  split
  · exact reports_syntaxNotSupported
  · exact (reports_expression _ _).bind fun _ _ => reports_field_name _

theorem reports_evalLoop (assignment : List Text) (depth : Int) (tokens : List Text) :
    Reports (evalLoop db known assignment depth tokens) := by
  induction tokens generalizing known assignment depth with
  | nil =>
      rw [evalLoop]
      split
      · exact reports_syntaxNotSupported
      · exact .ok _
  | cons token rest ih =>
      rw [evalLoop]
      split
      · exact reports_syntaxNotSupported
      split
      · exact ih _ _
      · exact (reports_checkAssignment assignment).bind fun _ _ => ih _ _

/-- Every name that a pattern matches has its captures, so no search for one is exhausted. -/
theorem reports_aliases (source target : Text) : Reports (aliases known source target) := by
  rw [aliases]
  refine .ite (fun _ => reports_syntaxNotSupported.bind fun _ h => by cases h) fun _ => ?_
  refine (Raises.mapM fun name hname => ?_).bind fun _ _ => .pure _
  obtain ⟨found, pieces, hfound, -⟩ := captures_of_match (List.mem_filter.mp hname).2
  rw [hfound]
  exact .ok _

theorem reports_renameLoop (tokens : List Text) (acc : List Text × List Text) :
    Reports (renameLoop known tokens acc) := by
  induction tokens, acc using renameLoop.induct known with
  | case1 acc =>
      rw [renameLoop]
      exact .ok _
  | case2 rest acc ih =>
      rw [renameLoop]
      exact ih
  | case3 token word next rest removed renamed hcomma has ih =>
      rw [renameLoop, if_pos has]
      · exact reports_syntaxNotSupported.bind fun _ h => by cases h
      · exact hcomma
  | case4 token word next rest removed renamed hcomma has ih =>
      rw [renameLoop.eq_3 _ _ _ _ _ _ _ hcomma, if_neg has]
      refine (reports_field_name token).bind fun source _ => (reports_field_name next).bind fun target _ => ?_
      refine (reports_requireField token true).bind fun _ _ => (reports_aliases source target).bind fun found _ => ?_
      exact ih _ _
  | case5 tokens acc hnil hcomma hrename =>
      rw [renameLoop.eq_4 _ _ _ hnil hcomma hrename]
      exact reports_syntaxNotSupported

theorem reports_checkArguments (arguments : List Text) : Reports (checkArguments db known arguments) := by
  have hexpression : Reports
      (do expression db known (join " " arguments) true; return none : Except Raised (Option Text)) :=
    (reports_expression _ true).bind fun _ _ => .pure _
  match arguments with
  | [] => exact hexpression
  | [argument] =>
      rw [checkArguments]
      exact (reports_requireField argument true).bind fun _ _ => (reports_field_name argument).bind fun _ _ => .pure _
  | _ :: _ :: _ => exact hexpression

theorem reports_statsLoop (options : List Text) (fuel : Nat) (generated tokens : List Text) :
    Reports (statsLoop db known options fuel generated tokens) := by
  induction fuel generalizing generated tokens with
  | zero => exact .ok _
  | succ fuel ih =>
      cases tokens with
      | nil => exact .ok _
      | cons token rest =>
          rw [statsLoop.eq_def]
          refine .ite (fun _ => ih _ _) fun _ => .ite (fun _ => ih _ _) fun _ => ?_
          refine .ite (fun _ => (reports_field_list _ _).bind fun _ _ => .pure _) fun _ => ?_
          refine .ite (fun _ => (reports_fieldError (by decide)).bind fun _ h => by cases h) fun _ => ?_
          refine Raises.bind ?_ fun source _ => ?_
          · split
            next inner _ =>
              cases closeGroup 1 inner with
              | none => exact reports_syntaxNotSupported
              | some group => exact (reports_checkArguments _).bind fun _ _ => .pure _
            next => exact .ite (fun _ => .pure _) fun _ => reports_syntaxNotSupported
          · obtain ⟨default, wildcardSource, rest⟩ := source
            refine Raises.bind ?_ fun renamed _ => ?_
            · refine .ite (fun _ => ?_) fun _ => .pure _
              split
              next => exact (reports_field_name _).bind fun _ _ => .pure _
              next => exact reports_syntaxNotSupported
            · obtain ⟨output, next⟩ := renamed
              cases wildcardSource with
              | none => exact ih _ _
              | some pattern =>
                  refine .ite (fun _ => ?_) fun _ => ih _ _
                  exact Raises.bind ((reports_aliases pattern output).bind fun _ _ => .pure _) fun _ _ => ih _ _

theorem reports_checkSegment (segment : Segment) : Reports (checkSegment db known segment) := by
  obtain ⟨command, args⟩ := segment
  rw [checkSegment]
  cases fieldTokens args with
  | none => exact reports_syntaxNotSupported
  | some tokens =>
      cases command with
      | search => exact (reports_checkSearch tokens).bind fun _ _ => .pure _
      | «where» => exact (reports_expression args false).bind fun _ _ => .pure _
      | eval => exact reports_evalLoop [] 0 _
      | rename => exact (reports_renameLoop tokens ([], [])).bind fun _ _ => .pure _
      | stats => exact (reports_statsLoop _ _ _ tokens).bind fun _ _ => .pure _
      | timechart => exact (reports_statsLoop _ _ _ tokens).bind fun _ _ => .pure _
      | table => exact (reports_field_list _ tokens).bind fun _ _ => .pure _
      | fields => exact (reports_field_list _ tokens).bind fun _ _ => .pure _
      | sort => exact (reports_field_list _ tokens).bind fun _ _ => .pure _
      | dedup => exact (reports_field_list _ tokens).bind fun _ _ => .pure _
      | regex =>
          cases tokens with
          | nil => exact .pure _
          | cons field rest =>
              cases rest with
              | nil => exact .pure _
              | cons operator rest =>
                  simp only
                  split
                  · exact (reports_requireField field false).bind fun _ _ => .pure _
                  · exact .pure _
      | head =>
          simp only
          split
          · exact (reports_expression _ false).bind fun _ _ => .pure _
          · exact .pure _

theorem reports_validate_field_references (parsed : ParsedSPL) (discovered : List Text) :
    Reports (validate_field_references db parsed discovered) := by
  have hsegments : ∀ segments known, Reports (checkSegments db known segments) := by
    intro segments
    induction segments with
    | nil => exact fun _ => .ok _
    | cons segment rest ih => exact fun known => (reports_checkSegment segment).bind fun _ _ => ih _
  exact (hsegments _ _).bind fun _ _ => .pure _

end Reporting

/-! ### Parsing and provenance -/

theorem refuses_parse_spl (db : UnicodeData) (spl : Text) : Raises IsRefusal (parse_spl db spl) := by
  have hsegment : ∀ first part, Raises IsRefusal (parseSegment db first part) := by
    intro first part
    rw [parseSegment]
    split
    · exact .ok _
    split
    · exact .error ⟨_, rfl⟩
    split
    · split
      · exact .ok _
      · exact .error ⟨_, rfl⟩
    · split
      · exact .ok _
      · exact .error ⟨_, rfl⟩
  rw [parse_spl]
  split
  · exact .error ⟨_, rfl⟩
  split
  · exact .error ⟨_, rfl⟩
  split
  · exact .error ⟨_, rfl⟩
  refine Raises.map ?_
  cases pipelineParts spl with
  | nil => exact .ok _
  | cons part parts =>
      exact (hsegment true part).bind fun _ _ => (Raises.mapM fun part _ => hsegment false part).bind fun _ _ => .pure _

theorem raises_preserve_raw_source_fields (parsed : ParsedSPL) :
    Raises (· = .valueError "source_metadata_modified") (preserve_raw_source_fields parsed) := by
  have hsegments : ∀ segments, Raises (· = .valueError "source_metadata_modified") (preserveSegments segments) := by
    intro segments
    induction segments with
    | nil => exact .ok _
    | cons segment rest ih =>
        rw [preserveSegments]
        split
        · exact .error rfl
        · exact ih.map
  rw [preserve_raw_source_fields]
  split
  · exact .ok _
  · exact (hsegments _).map

/-! ### The verdict -/

/-- The reasons a verdict may give. -/
def reasonCodes : List String :=
  ["spl_not_allowed", "source_metadata_modified"] ++ fieldReasons ++
    ["source_expression_not_supported", "source_scope_contradictory", "source_scope_unbounded",
      "index_scope_not_exact", "sourcetype_scope_not_exact", "index_scope_missing", "index_metadata_mismatch",
      "sourcetype_scope_missing", "sourcetype_metadata_mismatch", "inline_time_not_allowed", "question_not_open",
      "index_outside_scope", "sourcetype_outside_scope", "time_outside_scope", "result_limit_exceeded"]

namespace SPLPolicy

variable {db : UnicodeData} {digest : CacheDigest} {policy : SPLPolicy} {proposal : QueryProposal}
  {open_question_ids : Option (List Text)}

/-- The text of a proposal is always judged, and a reason found in it is one of the first five. -/
theorem exists_parseChecks (db : UnicodeData) (policy : SPLPolicy) (spl : Text) :
    ∃ p, parseChecks db policy spl = .ok p ∧
      ∀ reason ∈ p.reasons, reason ∈ ["spl_not_allowed", "source_metadata_modified"] ++ fieldReasons := by
  rw [parseChecks]
  cases hparsed : parse_spl db spl with
  | error e =>
      obtain ⟨message, rfl⟩ := refuses_parse_spl db spl e hparsed
      exact ⟨_, rfl, by simp⟩
  | ok parsed =>
      simp only
      cases hnormalized : preserve_raw_source_fields parsed with
      | error e =>
          have he := raises_preserve_raw_source_fields parsed e hnormalized
          subst he
          exact ⟨_, rfl, by simp⟩
      | ok normalized =>
          simp only
          cases hfields : validate_field_references db parsed policy.discovered_fields with
          | error e =>
              obtain ⟨message, hmessage, rfl⟩ := reports_validate_field_references parsed _ e hfields
              exact ⟨_, rfl, by simpa using Or.inr (Or.inr hmessage)⟩
          | ok _ => exact ⟨_, rfl, by simp⟩

theorem mem_reasonIf {holds : Bool} {reason r : String} (h : r ∈ reasonIf holds reason) : r = reason := by
  rw [reasonIf] at h
  split at h
  · exact List.mem_singleton.mp h
  · cases h

theorem mem_branchReasons {expression : Text} {r : String} (h : r ∈ branchReasons expression) :
    r ∈ ["source_expression_not_supported", "source_scope_contradictory", "source_scope_unbounded"] := by
  rw [branchReasons] at h
  split at h
  · simp_all
  · split at h
    · simp_all
    · split at h
      · simp_all
      · cases h

theorem mem_scopeReasons {field : String} {written declared : List Text} {r : String}
    (h : r ∈ scopeReasons field written declared) : r ∈ [field ++ "_scope_missing", field ++ "_metadata_mismatch"] := by
  rw [scopeReasons] at h
  split at h
  · simp_all
  · split at h
    · cases h
    · simp_all

theorem mem_rejectionReasons {p : Parsed} {r : String} (hp : ∀ reason ∈ p.reasons, reason ∈ reasonCodes)
    (h : r ∈ policy.rejectionReasons db proposal open_question_ids p) : r ∈ reasonCodes := by
  have hscope : ∀ {field : String} {written declared : List Text}, r ∈ scopeReasons field written declared →
      [field ++ "_scope_missing", field ++ "_metadata_mismatch"] ⊆ reasonCodes → r ∈ reasonCodes :=
    fun hr hsub => hsub (mem_scopeReasons hr)
  simp only [rejectionReasons, List.mem_append] at h
  rcases h with (((((((((((hr | hr) | hr) | hr) | hr) | hr) | hr) | hr) | hr) | hr) | hr) | hr) | hr
  · exact hp r hr
  · have hbranch := mem_branchReasons hr
    revert hbranch
    exact fun hbranch => (show _ ⊆ reasonCodes by decide) hbranch
  · rw [mem_reasonIf hr]; decide
  · rw [mem_reasonIf hr]; decide
  · exact hscope hr (by decide)
  · exact hscope hr (by decide)
  · rw [mem_reasonIf hr]; decide
  · rw [mem_reasonIf hr]; decide
  · rw [mem_reasonIf hr]; decide
  · rw [mem_reasonIf hr]; decide
  · rw [mem_reasonIf hr]; decide
  · rw [mem_reasonIf hr]; decide
  · rw [mem_reasonIf hr]; decide

/-- What a verdict looks like: it allows exactly where it gives no reason, and then has a cache key; its reasons are
different ones of the fixed list. -/
structure WellFormed (v : QueryValidationResult) : Prop where
  allowed_iff : v.allowed = true ↔ v.reason_codes = []
  cache_key_iff : v.cache_key.isSome = true ↔ v.allowed = true
  reasons : ∀ reason ∈ v.reason_codes, reason ∈ reasonCodes
  distinct : v.reason_codes.Nodup

theorem eraseDups_eq_nil {α : Type} [BEq α] {xs : List α} : xs.eraseDups = [] ↔ xs = [] := by
  cases xs with
  | nil => exact iff_of_true rfl rfl
  | cons x xs =>
      rw [List.eraseDups_cons]
      exact iff_of_false (List.cons_ne_nil _ _) (List.cons_ne_nil _ _)

/-- **Every proposal is judged.** For every policy, proposal and list of open questions `validate` returns a
well-formed verdict. -/
theorem validate_judges (db : UnicodeData) (digest : CacheDigest) (policy : SPLPolicy) (proposal : QueryProposal)
    (open_question_ids : Option (List Text)) :
    ∃ v, policy.validate db digest proposal open_question_ids = .ok v ∧ WellFormed v := by
  obtain ⟨p, hp, hreasons⟩ := exists_parseChecks db policy proposal.spl
  have hcodes : ∀ reason ∈ p.reasons, reason ∈ reasonCodes := fun reason hr =>
    List.mem_append_left _ (hreasons reason hr)
  rw [validate, hp, ok_bind]
  refine ⟨_, rfl, ?_, ?_, ?_, RoundRobin.nodup_eraseDups _⟩
  · simp only [List.isEmpty_iff, eraseDups_eq_nil]
  · simp only
    split
    next h => exact iff_of_true rfl h
    next h => exact iff_of_false (by simp) h
  · intro reason hr
    exact mem_rejectionReasons hcodes (List.mem_eraseDups.mp hr)

/-! ### Open questions -/

theorem rejectionReasons_of_open {ids : List Text} (h : proposal.question_id ∈ ids) (p : Parsed) :
    policy.rejectionReasons db proposal (some ids) p = policy.rejectionReasons db proposal none p := by
  have hopen : (some ids).any (proposal.question_id ∉ ·) = false := by simpa using h
  simp only [rejectionReasons, hopen, Option.any_none]

/-- A question that is open is judged as if all of them were. -/
theorem validate_of_open {ids : List Text} (h : proposal.question_id ∈ ids) :
    policy.validate db digest proposal (some ids) = policy.validate db digest proposal none := by
  simp only [validate, rejectionReasons_of_open h]

/-- What is allowed has an open question. -/
theorem mem_open_of_allowed {ids : List Text} {v : QueryValidationResult}
    (h : policy.validate db digest proposal (some ids) = .ok v) (hallowed : v.allowed = true) :
    proposal.question_id ∈ ids := by
  obtain ⟨p, -, hreasons, -⟩ := validate_allowed h hallowed
  simp only [rejectionReasons, List.append_eq_nil_iff, reasonIf_eq_nil] at hreasons
  simpa using hreasons.1.1.1.1.1.2

/-- A proposal that is allowed for some open questions is allowed, with the same verdict, for any that its own is
among. -/
theorem validate_reopened {ids ids' : List Text} {v : QueryValidationResult}
    (h : policy.validate db digest proposal (some ids) = .ok v) (hallowed : v.allowed = true)
    (hopen : proposal.question_id ∈ ids') : policy.validate db digest proposal (some ids') = .ok v := by
  rw [validate_of_open hopen, ← validate_of_open (mem_open_of_allowed h hallowed)]
  exact h

end SPLPolicy

end ThreatHunting.Spl
