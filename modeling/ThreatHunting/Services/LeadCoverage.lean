import ThreatHunting.Services.LeadSessions

/-!
# ThreatHunting.Services.LeadCoverage

What widening a search is for: the widened search covers every lead session, so that widening it again leaves it as it is.
The conjunction of a session stands in the disjunction, that in the arguments of the search, and that in the text; what is
cut off on the way, and where the text is compared, are blanks, and a conjunction begins and ends with a parenthesis. Only
the runs of whitespace of a session value are lost where runs are squeezed, so the sessions are to have none.
-/

namespace ThreatHunting

open Fallible Rewriting

/-! ### Parts of a text -/

section Parts

variable {part cs : Text}

theorem infix_join {sep : String} {parts : List Text} (h : part ∈ parts) : part <:+: join sep parts := by
  obtain ⟨i, hi⟩ := List.getElem?_of_mem h
  have hmem : part ∈ parts.intersperse sep.toList := List.mem_of_getElem? (List.getElem?_intersperse_two_mul.trans hi)
  exact List.infix_of_mem_flatten hmem

/-- A part that begins with no blank is still there after the blanks in front are dropped. -/
theorem infix_skipSpaces (hhead : ∀ c ∈ part.head?, isSpace c = false) (h : part <:+: cs) : part <:+: skipSpaces cs := by
  obtain ⟨before, after, rfl⟩ := h
  rw [skipSpaces]
  -- on what stands before the part: dropping ends in it, or where the part begins
  induction before with
  | nil =>
      cases part with
      | nil => exact List.nil_infix
      | cons c part =>
          have hc := hhead c rfl
          rw [List.nil_append, List.cons_append, List.dropWhile_cons_of_neg (by simp [hc])]
          exact List.infix_append [] (c :: part) after
  | cons b before ih =>
      rw [List.cons_append, List.cons_append]
      by_cases hb : isSpace b = true
      · rwa [List.dropWhile_cons_of_pos hb]
      · rw [List.dropWhile_cons_of_neg hb]
        exact ⟨b :: before, after, rfl⟩

/-- And one that ends with none, after the blanks at the end are. -/
theorem infix_rstrip (hlast : ∀ c ∈ part.getLast?, isSpace c = false) (h : part <:+: cs) : part <:+: rstrip cs := by
  have hreverse : part.reverse <:+: skipSpaces cs.reverse := by
    refine infix_skipSpaces (fun c hc => hlast c ?_) (List.reverse_infix.mpr h)
    rwa [List.head?_reverse] at hc
  rw [rstrip, List.rdropWhile, ← List.reverse_infix, List.reverse_reverse]
  exact hreverse

theorem infix_strip (hhead : ∀ c ∈ part.head?, isSpace c = false) (hlast : ∀ c ∈ part.getLast?, isSpace c = false)
    (h : part <:+: cs) : part <:+: strip cs := infix_rstrip hlast (infix_skipSpaces hhead h)

end Parts

namespace LeadSessions

variable {py : Interpreter} {session : LeadSession} {sessions : List LeadSession} {spl spl' : Text}

theorem branch_head : ∀ c ∈ (lead_session_and_branch session).head?, isSpace c = false := by
  intro c hc
  cases hc
  decide

theorem branch_last : ∀ c ∈ (lead_session_and_branch session).getLast?, isSpace c = false := by
  intro c hc
  rw [lead_session_and_branch, conjoined, List.getLast?_concat] at hc
  cases hc
  decide

/-- The disjunction has the conjunction of each session. -/
theorem branch_infix_disjunction {disjunction : Text} (h : lead_session_spl_disjunction sessions = .ok disjunction)
    (hsession : session ∈ sessions) (hid : session.session_id.isSome = true) :
    lead_session_and_branch session <:+: disjunction := by
  have hmem : lead_session_and_branch session ∈ (sessions.filter (·.session_id.isSome)).map lead_session_and_branch :=
    List.mem_map_of_mem (List.mem_filter.mpr ⟨hsession, hid⟩)
  rw [lead_session_spl_disjunction] at h
  split at h
  · cases h
  · split at h
    · cases h
    next branch hbranches =>
      cases h
      rw [hbranches] at hmem
      exact List.mem_singleton.mp hmem ▸ List.infix_rfl
    · cases h
      exact (infix_join hmem).trans ⟨['('], [')'], rfl⟩

theorem branch_infix_widened (h : widen_spl_for_lead_sessions py spl sessions = .ok spl') (hsession : session ∈ sessions)
    (hid : session.session_id.isSome = true) : lead_session_and_branch session <:+: spl' := by
  rw [widen_spl_for_lead_sessions] at h
  split at h
  · cases h
  · cases h
  next parsed _ =>
    obtain ⟨disjunction, hdisjunction, h⟩ := bind_eq_ok.mp h
    cases h
    have hbranch := branch_infix_disjunction hdisjunction hsession hid
    have hsearch : lead_session_and_branch session <:+: widenedSearch py parsed.search_expression disjunction := by
      rw [widenedSearch]
      split
      · exact hbranch
      -- the disjunction ends what is stripped, and the conjunction does not begin or end with a blank
      · exact infix_strip branch_head branch_last (hbranch.trans (List.suffix_append _ _).isInfix)
    exact (infix_rstrip branch_last (hsearch.trans (List.suffix_append _ _).isInfix)).trans (infix_join List.mem_cons_self)

/-- A widened search covers all sessions, if squeezing leaves their conjunctions as they are. -/
theorem covers_widened (h : widen_spl_for_lead_sessions py spl sessions = .ok spl')
    (hsessions : ∀ session ∈ sessions, session.session_id.isSome = true ∧
      Squeezed isSpace ' ' (lead_session_and_branch session)) : spl_covers_all_lead_sessions spl' sessions = true := by
  refine List.all_eq_true.mpr fun session hsession => ?_
  obtain ⟨hid, hsqueezed⟩ := hsessions session hsession
  have hsqueeze := infix_squeeze hsqueezed branch_head branch_last (branch_infix_widened h hsession hid)
  have hinfix : lead_session_and_branch session <:+: normalizeSpaces spl' := infix_strip branch_head branch_last hsqueeze
  rw [spl_covers_lead_session, hid, decide_eq_true hinfix]
  rfl

end LeadSessions

end ThreatHunting
