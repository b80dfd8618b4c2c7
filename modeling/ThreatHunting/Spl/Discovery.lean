import ThreatHunting.Spl.Aliases
import ThreatHunting.Spl.Policy

/-!
# ThreatHunting.Spl.Discovery

Field discovery and validation: a pipeline that is accepted with some fields known is accepted
with more of them known, command by command, and knows no fewer after it.
-/

namespace ThreatHunting.Spl

open Fallible

variable {db : UnicodeData} {known known' : List Text}

/-! ### Fields and expressions -/

theorem requireField_follows (hsub : known ⊆ known') (token : Text) (wildcard : Bool) :
    Follows Eq (requireField known token wildcard) (requireField known' token wildcard) := by
  refine (Follows.refl (field_name token)).bindEq fun name => ?_
  intro _ h
  split at h
  next hknown =>
    refine ⟨(), ?_, rfl⟩
    have hmore : (name ∈ known' || (wildcard && known'.any (Glob.fnmatch name))) = true := by
      simp only [Bool.or_eq_true, Bool.and_eq_true, decide_eq_true_eq, List.any_eq_true] at hknown ⊢
      exact hknown.imp (@hsub name) fun ⟨hwildcard, field, hfield, hmatch⟩ => ⟨hwildcard, field, hsub hfield, hmatch⟩
    rw [if_pos hmore]
    rfl
  next => cases h

theorem checkExpression_follows (hsub : known ⊆ known') (aggregate : Bool) (tokens : List Text) :
    Follows Eq (checkExpression db known aggregate tokens) (checkExpression db known' aggregate tokens) := by
  induction tokens with
  | nil => exact .refl _
  | cons token rest ih =>
      have hrequire := (requireField_follows hsub token false).bindEq fun _ => ih
      rw [checkExpression, checkExpression]
      refine .ite (fun _ => hrequire) fun _ => .ite (fun _ => ?_) fun _ => ih
      exact .ite (fun _ => .ite (fun _ => (Follows.refl _).bindEq fun _ => ih) fun _ => ih) fun _ => hrequire

theorem expression_follows (hsub : known ⊆ known') (value : Text) (aggregate : Bool) :
    Follows Eq (expression db known value aggregate) (expression db known' value aggregate) :=
  checkExpression_follows hsub aggregate _

theorem fieldListLoop_follows (hsub : known ⊆ known') (o : ListOptions) (fuel : Nat) (first : Bool) (tokens : List Text) :
    Follows Eq (fieldListLoop db known o fuel first tokens) (fieldListLoop db known' o fuel first tokens) := by
  induction fuel generalizing first tokens with
  | zero => exact .refl _
  | succ fuel ih =>
      cases tokens with
      | nil => exact .refl _
      | cons token rest =>
          rw [fieldListLoop, fieldListLoop]
          refine .ite (fun _ => ih _ _) fun _ => .ite (fun _ => ?_) fun _ => ih _ _
          exact (requireField_follows hsub _ _).bindEq fun _ => ih _ _

theorem field_list_follows (hsub : known ⊆ known') (o : ListOptions) (tokens : List Text) :
    Follows Eq (field_list db known o tokens) (field_list db known' o tokens) :=
  fieldListLoop_follows hsub o _ _ _

theorem checkSearch_follows (hsub : known ⊆ known') (tokens : List Text) :
    Follows Eq (checkSearch known tokens) (checkSearch known' tokens) := by
  induction tokens with
  | nil => exact .refl _
  | cons token rest ih =>
      cases rest with
      | nil => exact .refl _
      | cons operator rest =>
          rw [checkSearch, checkSearch]
          exact .ite (fun _ => (requireField_follows hsub token false).bindEq fun _ => ih) fun _ => ih

/-! ### Assignments -/

theorem checkAssignment_follows (hsub : known ⊆ known') (assignment : List Text) :
    Follows Eq (checkAssignment db known assignment) (checkAssignment db known' assignment) := by
  rw [checkAssignment, checkAssignment]
  refine .ite (fun _ => .refl _) fun _ => .ite (fun _ => .refl _) fun _ => ?_
  exact (expression_follows hsub _ _).bindEq fun _ => .refl _

theorem evalLoop_follows (hsub : known ⊆ known') (assignment : List Text) (depth : Int) (tokens : List Text) :
    Follows (· ⊆ ·) (evalLoop db known assignment depth tokens) (evalLoop db known' assignment depth tokens) := by
  induction tokens generalizing known known' assignment depth with
  | nil =>
      rw [evalLoop, evalLoop]
      exact .ite (fun _ => .error _ _) fun _ => .ok hsub
  | cons token rest ih =>
      rw [evalLoop, evalLoop]
      refine .ite (fun _ => .error _ _) fun _ => .ite (fun _ => ih hsub _ _) fun _ => ?_
      exact (checkAssignment_follows hsub assignment).bindEq fun name => ih (List.cons_subset_cons name hsub) _ _

/-! ### Renames -/

theorem filter_subset (hsub : known ⊆ known') (p : Text → Bool) : known.filter p ⊆ known'.filter p := by
  intro name hname
  obtain ⟨hknown, hp⟩ := List.mem_filter.mp hname
  exact List.mem_filter.mpr ⟨hsub hknown, hp⟩

theorem append_subset_append {xs xs' ys ys' : List Text} (hx : xs ⊆ xs') (hy : ys ⊆ ys') : xs ++ ys ⊆ xs' ++ ys' :=
  List.append_subset.mpr ⟨List.Subset.trans hx (List.subset_append_left _ _), List.Subset.trans hy (List.subset_append_right _ _)⟩

/-- Of the names known to both, both match the same, and more of them give more new names. -/
theorem aliases_follows (hsub : known ⊆ known') (source target : Text) :
    Follows (fun found found' => (∀ name ∈ known, name ∈ found'.1 → name ∈ found.1) ∧ found.2 ⊆ found'.2)
      (aliases known source target) (aliases known' source target) := by
  rw [aliases, aliases]
  refine .ite (fun _ => .error _ _) fun _ => ?_
  refine (Follows.mapM (filter_subset hsub _) fun name hname => ?_).bind fun renamed renamed' hrenamed => .pure ⟨?_, hrenamed⟩
  · obtain ⟨found, pieces, hfound, -⟩ := captures_of_match (List.mem_filter.mp hname).2
    rw [hfound]
    exact succeeds_ok _
  · intro name hknown hmatched
    exact List.mem_filter.mpr ⟨hknown, (List.mem_filter.mp hmatched).2⟩

/-- The loop of `rename` removes no name known to both that it would not remove with fewer, and adds no fewer. -/
theorem renameLoop_follows (hsub : known ⊆ known') (tokens : List Text) (acc acc' : List Text × List Text)
    (hremoved : ∀ name ∈ known, name ∈ acc'.1 → name ∈ acc.1) (hrenamed : acc.2 ⊆ acc'.2) :
    Follows (fun acc acc' => (∀ name ∈ known, name ∈ acc'.1 → name ∈ acc.1) ∧ acc.2 ⊆ acc'.2)
      (renameLoop known tokens acc) (renameLoop known' tokens acc') := by
  induction tokens, acc using renameLoop.induct known generalizing acc' with
  | case1 acc =>
      rw [renameLoop, renameLoop]
      exact .ok ⟨hremoved, hrenamed⟩
  | case2 rest acc ih =>
      rw [renameLoop, renameLoop]
      exact ih acc' hremoved hrenamed
  | case3 token word next rest removed renamed hcomma has ih =>
      rw [renameLoop, if_pos has]
      · exact .error _ _
      · exact hcomma
  | case4 token word next rest removed renamed hcomma has ih =>
      rw [renameLoop.eq_3 _ _ _ _ _ _ _ hcomma, renameLoop.eq_3 _ _ _ _ _ _ _ hcomma, if_neg has, if_neg has]
      refine (Follows.refl _).bindEq fun source => (Follows.refl _).bindEq fun target => ?_
      refine (requireField_follows hsub token true).bindEq fun _ => ?_
      refine (aliases_follows hsub source target).bind fun found found' hfound => ?_
      refine ih _ _ _ (fun name hname hmem => ?_) ?_
      · exact List.mem_append.mpr ((List.mem_append.mp hmem).imp (hremoved name hname) (hfound.1 name hname))
      · exact append_subset_append hrenamed hfound.2
  | case5 tokens acc hnil hcomma hrename =>
      rw [renameLoop.eq_4 _ _ _ hnil hcomma hrename]
      exact .error _ _

/-! ### Aggregation -/

theorem checkArguments_follows (hsub : known ⊆ known') (arguments : List Text) :
    Follows Eq (checkArguments db known arguments) (checkArguments db known' arguments) := by
  have hexpression : Follows Eq
      (do expression db known (join " " arguments) true; return none : Except Raised (Option Text))
      (do expression db known' (join " " arguments) true; return none : Except Raised (Option Text)) :=
    (expression_follows hsub _ true).bindEq fun _ => .refl _
  match arguments with
  | [] => exact hexpression
  | [argument] =>
      rw [checkArguments, checkArguments]
      exact (requireField_follows hsub argument true).bindEq fun _ => .refl _
  | _ :: _ :: _ => exact hexpression

theorem statsLoop_follows (hsub : known ⊆ known') (options : List Text) (fuel : Nat) {generated generated' : List Text}
    (hgenerated : generated ⊆ generated') (tokens : List Text) :
    Follows (· ⊆ ·) (statsLoop db known options fuel generated tokens)
      (statsLoop db known' options fuel generated' tokens) := by
  induction fuel generalizing generated generated' tokens with
  | zero => exact .ok hgenerated
  | succ fuel ih =>
      cases tokens with
      | nil => exact .ok hgenerated
      | cons token rest =>
          rw [statsLoop.eq_def, statsLoop.eq_def db known']
          refine .ite (fun _ => ih hgenerated _) fun _ => .ite (fun _ => ih hgenerated _) fun _ => ?_
          refine .ite (fun _ => (field_list_follows hsub _ _).bindEq fun _ => .pure hgenerated) fun _ => ?_
          refine .ite (fun _ => .error _ _) fun _ => ?_
          refine Follows.bindEq ?_ fun ⟨default, wildcardSource, rest⟩ => (Follows.refl _).bindEq fun ⟨output, next⟩ => ?_
          · split
            next inner _ =>
              cases closeGroup 1 inner with
              | none => exact .refl _
              | some group => exact (checkArguments_follows hsub _).bindEq fun _ => .refl _
            next => exact .refl _
          · have hmore : ∀ {outputs outputs' : List Text}, outputs ⊆ outputs' → Follows (· ⊆ ·)
                (statsLoop db known options fuel (generated ++ outputs) next)
                (statsLoop db known' options fuel (generated' ++ outputs') next) := fun houtputs =>
              ih (append_subset_append hgenerated houtputs) next
            cases wildcardSource with
            | none => exact hmore (List.Subset.refl _)
            | some pattern =>
                refine .ite (fun _ => ?_) fun _ => hmore (List.map_subset _ (filter_subset hsub _))
                refine Follows.bind (R := (· ⊆ ·)) ?_ fun _ _ => hmore
                exact (aliases_follows hsub pattern output).bind fun _ _ hfound => .pure hfound.2

/-! ### Commands -/

/-- A command that fewer fields suffice for is accepted with more, after which more are known. -/
theorem checkSegment_follows (hsub : known ⊆ known') (segment : Segment) :
    Follows (· ⊆ ·) (checkSegment db known segment) (checkSegment db known' segment) := by
  obtain ⟨command, args⟩ := segment
  have hkept : ∀ {x x' : Except Raised Unit}, Follows Eq x x' →
      Follows (· ⊆ ·) (do x; return known : Except Raised (List Text)) (do x'; return known') := fun h =>
    h.bindEq fun _ => .pure hsub
  have hadded : ∀ {x x' : Except Raised (List Text)}, Follows (· ⊆ ·) x x' →
      Follows (· ⊆ ·) (do return (← x) ++ known : Except Raised (List Text)) (do return (← x') ++ known') := fun h =>
    h.bind fun _ _ hnew => .pure (append_subset_append hnew hsub)
  rw [checkSegment, checkSegment]
  cases fieldTokens args with
  | none => exact .error _ _
  | some tokens =>
      cases command with
      | search => exact hkept (checkSearch_follows hsub tokens)
      | «where» => exact hkept (expression_follows hsub args false)
      | eval => exact evalLoop_follows hsub [] 0 _
      | rename =>
          have hloop := renameLoop_follows hsub tokens ([], []) ([], []) (fun _ _ h => h) (List.Subset.refl _)
          refine hloop.bind fun acc acc' ⟨hremoved, hrenamed⟩ => .pure (append_subset_append hrenamed fun name hname => ?_)
          obtain ⟨hknown, hkeep⟩ := List.mem_filter.mp hname
          refine List.mem_filter.mpr ⟨hsub hknown, ?_⟩
          simp only [decide_eq_true_eq] at hkeep ⊢
          exact fun h => hkeep (hremoved name hknown h)
      | stats => exact hadded (statsLoop_follows hsub _ _ (List.Subset.refl _) tokens)
      | timechart => exact hadded (statsLoop_follows hsub _ _ (List.Subset.refl _) tokens)
      | table => exact hkept (field_list_follows hsub _ tokens)
      | fields => exact hkept (field_list_follows hsub _ tokens)
      | sort => exact hkept (field_list_follows hsub _ tokens)
      | dedup => exact hkept (field_list_follows hsub _ tokens)
      | regex =>
          match tokens with
          | [] => exact .pure hsub
          | [_] => exact .pure hsub
          | field :: operator :: rest =>
              exact .ite (fun _ => hkept (requireField_follows hsub field false)) fun _ => .pure hsub
      | head => exact .ite (fun _ => hkept (expression_follows hsub _ false)) fun _ => .pure hsub

theorem checkSegments_follows (hsub : known ⊆ known') (segments : List Segment) :
    Follows (· ⊆ ·) (checkSegments db known segments) (checkSegments db known' segments) := by
  induction segments generalizing known known' with
  | nil => exact .ok hsub
  | cons segment rest ih =>
      rw [checkSegments, checkSegments]
      exact (checkSegment_follows hsub segment).bind fun _ _ hmore => ih hmore

/-- The fields of a pipeline that are discovered remain discovered. -/
theorem validate_field_references_mono {parsed : ParsedSPL} {discovered more : List Text} (hsub : discovered ⊆ more)
    (h : validate_field_references db parsed discovered = .ok ()) :
    validate_field_references db parsed more = .ok () := by
  have hknown := append_subset_append hsub (List.Subset.refl builtinFields)
  obtain ⟨_, hmore, -⟩ := ((checkSegments_follows hknown parsed.command_segments).bind fun _ _ _ =>
    Follows.refl (.ok () : Except Raised Unit)) () h
  exact hmore

namespace SPLPolicy

variable {digest : CacheDigest} {policy : SPLPolicy} {proposal : QueryProposal} {open_question_ids : Option (List Text)}
  {more : List Text}

/-- The policy with these fields discovered. -/
def discovering (policy : SPLPolicy) (fields : List Text) : SPLPolicy := { policy with discovered_fields := fields }

/-- A text that gives no reason to reject it gives none where more fields are known. -/
theorem parseChecks_discovering (hsub : policy.discovered_fields ⊆ more) {spl : Text} {p : Parsed}
    (h : parseChecks db policy spl = .ok p) (hp : p.reasons = []) : parseChecks db (policy.discovering more) spl = .ok p := by
  obtain ⟨parsed, hparsed, hexpression, hnormalized, hfields⟩ := parseChecks_eq_ok h hp
  have hmore : validate_field_references db parsed (policy.discovering more).discovered_fields = .ok () :=
    validate_field_references_mono hsub hfields
  obtain ⟨normalized, expression, reasons⟩ := p
  simp only at hp hexpression hnormalized
  subst hp hexpression
  rw [parseChecks, hparsed]
  simp only [hnormalized, hmore]

theorem rejectionReasons_discovering (hsub : policy.discovered_fields ⊆ more) {p : Parsed}
    (h : policy.rejectionReasons db proposal open_question_ids p = []) :
    (policy.discovering more).rejectionReasons db proposal open_question_ids p = [] := by
  simp only [rejectionReasons, List.append_eq_nil_iff, reasonIf_eq_nil, Bool.not_eq_false', List.all_eq_true,
    Bool.or_eq_true, decide_eq_true_eq] at h ⊢
  obtain ⟨⟨⟨hearlier, hfields⟩, htime⟩, hlimit⟩ := h
  exact ⟨⟨⟨hearlier, fun field hfield => (hfields field hfield).imp (@hsub field) id⟩, htime⟩, hlimit⟩

/-- **More discovered fields.** What a policy allows it allows with more fields discovered, with the same
result: the same normalised text, the same cache key, the same limits. -/
theorem validate_discovering {result : QueryValidationResult} (hsub : policy.discovered_fields ⊆ more)
    (h : policy.validate db digest proposal open_question_ids = .ok result) (hallowed : result.allowed = true) :
    (policy.discovering more).validate db digest proposal open_question_ids = .ok result := by
  obtain ⟨p, hp, hreasons, -⟩ := validate_allowed h hallowed
  have hparsed := parseChecks_discovering hsub hp (by
    simp only [rejectionReasons, List.append_eq_nil_iff] at hreasons
    exact hreasons.1.1.1.1.1.1.1.1.1.1.1.1)
  have hnone := rejectionReasons_discovering hsub hreasons
  rw [validate, hp, ok_bind, hreasons] at h
  rw [validate, hparsed, ok_bind, hnone]
  exact h

/-- A wildcard rename of one field remains allowed with another it renames too. -/
theorem validate_discovering_user_name :
    ∃ result : QueryValidationResult, result.allowed = true ∧
      ((singleSourcePolicy ["user_id".toList]).discovering ["user_name".toList, "user_id".toList]).validate foldedLetters
        CacheMaterial.normalized_spl (singleSourceProposal
          "search index=main sourcetype=a | rename user_* AS account_* | table account_id") none = .ok result := by
  have hallowed : (singleSourcePolicy ["user_id".toList]).Allows foldedLetters CacheMaterial.normalized_spl
      (singleSourceProposal "search index=main sourcetype=a | rename user_* AS account_* | table account_id") none := by
    decide +kernel
  obtain ⟨result, hresult, hallowed⟩ := hallowed
  exact ⟨result, hallowed, validate_discovering (by decide) hresult hallowed⟩

end SPLPolicy

end ThreatHunting.Spl
