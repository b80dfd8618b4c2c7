import ThreatHunting.Spl.Provenance
import ThreatHunting.Spl.Search

/-!
# ThreatHunting.Spl.Quotes

`parse_spl` cuts a text at every pipe, whether or not it stands in a quoted literal. Here the
text is cut as a reader of literals would cut it, and the two are compared: the tokens the
validator reads are complete literals, operators and words without quotes, so a text it
accepts leaves no literal open at any of its pipes.
-/

namespace ThreatHunting.Spl

open Scan Search Fallible

/-- A character that opens a literal, and closes it. -/
abbrev Quote := {c : Char // isQuote c = true}

/-- Where a reader of quoted literals stands in a text. -/
inductive Place
  | outside
  | inside (quote : Quote)
  | escaped (quote : Quote)
  deriving DecidableEq

namespace Place

/-- After one more character: a quote opens a literal, the same quote closes it, and a
backslash inside it escapes whatever comes next. -/
def step : Place → Char → Place
  | outside, c => if h : isQuote c = true then inside ⟨c, h⟩ else outside
  | inside q, c => if c == q.1 then outside else if c == '\\' then escaped q else inside q
  | escaped q, _ => inside q

/-- The pieces of a text between the pipes outside its literals. -/
def pieces : Place → Text → List Text
  | _, [] => [[]]
  | place, c :: cs =>
      if place = outside ∧ c = '|' then [] :: pieces outside cs
      else (pieces (place.step c) cs).modifyHead (c :: ·)

/-- The text opens no literal that it does not close. -/
def Complete (cs : Text) : Prop := cs.foldl step outside = outside

instance (cs : Text) : Decidable (Complete cs) := inferInstanceAs (Decidable (_ = _))

end Place

/-- Cut a text at the pipes outside its literals. -/
def quoted_pieces (value : Text) : List Text := Place.pieces .outside value

namespace Place

/-! ### Complete texts -/

@[simp] theorem step_outside_of_plain {c : Char} (h : isQuote c = false) : step outside c = outside := by
  simp [step, h]

theorem Complete.append {xs ys : Text} (hx : Complete xs) (hy : Complete ys) : Complete (xs ++ ys) := by
  rw [Complete, List.foldl_append, show xs.foldl step outside = outside from hx]
  exact hy

theorem complete_of_plain {cs : Text} (h : ∀ c ∈ cs, isQuote c = false) : Complete cs := by
  induction cs with
  | nil => rfl
  | cons c cs ih =>
      rw [List.forall_mem_cons] at h
      rw [Complete, List.foldl_cons, step_outside_of_plain h.1]
      exact ih h.2

/-- Only a quote closes a literal. -/
theorem foldl_plain {cs : Text} (h : ∀ c ∈ cs, isQuote c = false) {place : Place}
    (hend : cs.foldl step place = outside) : place = outside := by
  induction cs generalizing place with
  | nil => exact hend
  | cons c cs ih =>
      rw [List.forall_mem_cons] at h
      have hstep := ih h.2 hend
      cases place with
      | outside => rfl
      | inside q =>
          have hne : c ≠ q.1 := by
            rintro rfl
            simp [q.2] at h
          rw [step, if_neg (by simpa using hne)] at hstep
          split at hstep <;> cases hstep
      | escaped q => cases hstep

theorem isQuote_of_isSpace {c : Char} (h : isSpace c = true) : isQuote c = false :=
  of_isSpace (fun d => isQuote d = false) (by decide) h

/-- Whitespace around a text opens and closes no literal. -/
theorem complete_strip_iff {cs : Text} : Complete (strip cs) ↔ Complete cs := by
  obtain ⟨sp, rest, rfl, -, hdrop, hsp, -⟩ := exists_run isSpace cs
  have hskip : skipSpaces (sp ++ rest) = rest := hdrop
  have hfront : Complete sp := complete_of_plain fun c hc => isQuote_of_isSpace (hsp c hc)
  have hback : ∀ c ∈ rest.rtakeWhile isSpace, isQuote c = false :=
    fun c hc => isQuote_of_isSpace (List.mem_rtakeWhile_imp hc)
  have hsplit : rstrip rest ++ rest.rtakeWhile isSpace = rest := List.rdropWhile_append_rtakeWhile
  rw [strip, hskip]
  constructor
  · intro h
    rw [← hsplit]
    exact hfront.append (h.append (complete_of_plain hback))
  · intro h
    rw [Complete, List.foldl_append, show sp.foldl step outside = outside from hfront, ← hsplit,
      List.foldl_append] at h
    exact foldl_plain hback h

/-! ### Cutting at pipes -/

/-- A complete piece without a pipe is cut off by the pipe after it. -/
theorem pieces_append {piece rest : Text} {place : Place} (hend : piece.foldl step place = outside)
    (hpipe : '|' ∉ piece) : pieces place (piece ++ '|' :: rest) = piece :: pieces outside rest := by
  induction piece generalizing place with
  | nil =>
      obtain rfl : place = outside := hend
      rw [List.nil_append, pieces, if_pos ⟨rfl, rfl⟩]
  | cons c piece ih =>
      simp only [List.mem_cons, not_or] at hpipe
      rw [List.cons_append, pieces, if_neg (fun h => hpipe.1 h.2.symm), ih hend hpipe.2,
        List.modifyHead_cons]

theorem pieces_singleton {piece : Text} {place : Place} (hpipe : '|' ∉ piece) :
    pieces place piece = [piece] := by
  induction piece generalizing place with
  | nil => rfl
  | cons c piece ih =>
      simp only [List.mem_cons, not_or] at hpipe
      rw [pieces, if_neg (fun h => hpipe.1 h.2.symm), ih hpipe.2, List.modifyHead_cons]

end Place

open Place

/-- Where every part between two pipes is complete, each of the pipes lies outside the literals. -/
theorem quoted_pieces_eq_splitOn {value : Text} (h : ∀ part ∈ value.splitOn '|', Complete part) :
    quoted_pieces value = value.splitOn '|' := by
  induction hlen : value.length using Nat.strong_induction_on generalizing value with
  | _ n ih =>
      by_cases hpipe : '|' ∈ value
      · obtain ⟨piece, rest, rfl, hpiece⟩ := List.eq_append_cons_of_mem hpipe
        have hshorter : rest.length < n := by
          simp only [List.length_append, List.length_cons] at hlen
          omega
        rw [List.splitOn_append_cons_self_of_not_mem hpiece] at h ⊢
        rw [List.forall_mem_cons] at h
        rw [quoted_pieces, pieces_append h.1 hpiece]
        exact congrArg (piece :: ·) (ih rest.length hshorter h.2 rfl)
      · rw [List.splitOn_eq_singleton hpipe, quoted_pieces, pieces_singleton hpipe]

theorem quoted_pieces_of_parts {value : Text} (h : ∀ part ∈ pipelineParts value, Complete part) :
    quoted_pieces value = value.splitOn '|' :=
  quoted_pieces_eq_splitOn fun part hpart =>
    complete_strip_iff.mp (h (strip part) (List.mem_map_of_mem hpart))

/-! ### What the validator read -/

/-- The rest of a literal closes it. -/
theorem foldl_quotedTail {q : Quote} {cs t rest : Text} (h : quotedTail q.1 cs = some (t, rest)) :
    t.foldl step (.inside q) = .outside := by
  have hclose : ∀ c : Char, (c == q.1) = true → step (.inside q) c = .outside :=
    fun c hc => by rw [step, if_pos hc]
  generalize hquote : q.1 = quote at h hclose
  fun_induction quotedTail quote cs generalizing t rest with
  | case1 => simp at h
  | case2 c hc =>
      simp only [Option.some.injEq, Prod.mk.injEq] at h
      obtain ⟨rfl, -⟩ := h
      exact hclose c hc
  | case3 => simp at h
  | case4 c d cs hc =>
      simp only [Option.some.injEq, Prod.mk.injEq] at h
      obtain ⟨rfl, -⟩ := h
      exact hclose c hc
  | case5 => simp at h
  | case6 c d cs hc hb hd ih =>
      obtain ⟨⟨t', rest'⟩, ht, heq⟩ := Option.map_eq_some_iff.mp h
      simp only [Prod.mk.injEq] at heq
      obtain ⟨rfl, -⟩ := heq
      have hescape : step (.inside q) c = .escaped q := by
        rw [step, hquote, if_neg hc, if_pos hb]
      rw [List.foldl_cons, hescape, List.foldl_cons]
      exact ih ht
  | case7 c d cs hc hb ih =>
      obtain ⟨⟨t', rest'⟩, ht, heq⟩ := Option.map_eq_some_iff.mp h
      simp only [Prod.mk.injEq] at heq
      obtain ⟨rfl, -⟩ := heq
      have hstay : step (.inside q) c = .inside q := by
        rw [step, hquote, if_neg hc, if_neg hb]
      rw [List.foldl_cons, hstay]
      exact ih ht

theorem complete_quotedToken {cs t rest : Text} (h : quotedToken cs = some (t, rest)) : Complete t := by
  cases cs with
  | nil => simp [quotedToken] at h
  | cons c cs =>
      rw [quotedToken] at h
      split at h
      · rename_i hc
        obtain ⟨⟨t', rest'⟩, ht, heq⟩ := Option.map_eq_some_iff.mp h
        simp only [Prod.mk.injEq] at heq
        obtain ⟨rfl, -⟩ := heq
        have hopen : step .outside c = .inside ⟨c, hc⟩ := dif_pos hc
        rw [Complete, List.foldl_cons, hopen]
        exact foldl_quotedTail ht
      · simp at h

/-- Every token of a command's arguments is a literal, or has no quote in it. -/
theorem complete_fieldToken {cs t rest : Text} (h : fieldToken cs = some (t, rest)) : Complete t := by
  rcases Option.or_eq_some_iff.mp h with h | ⟨-, h⟩
  · rcases Option.or_eq_some_iff.mp h with h | ⟨-, h⟩
    · exact complete_quotedToken h
    · have hoperators : ∀ op ∈ operators, Complete op := by decide
      exact hoperators t (operatorToken_eq_some h).2
  · obtain ⟨-, -, hchars, -⟩ := fieldWord_eq_some h
    refine complete_of_plain fun c hc => ?_
    have hword := hchars c hc
    simp only [isFieldChar, Bool.not_eq_true', Bool.or_eq_false_iff, decide_eq_false_iff_not] at hword
    simp only [List.mem_cons, not_or] at hword
    simp [isQuote, hword]

theorem complete_of_reads {args : Text} {tokens : List Text} (h : Reads isSpace fieldToken args tokens) :
    Complete args := by
  induction h with
  | nil => rfl
  | skip hc _ ih =>
      have hplain : ∀ c ∈ [_], isQuote c = false := fun c hmem =>
        List.mem_singleton.mp hmem ▸ isQuote_of_isSpace hc
      exact (complete_of_plain hplain).append ih
  | token _ ht _ ih =>
      rw [(textual_fieldToken ht).1]
      exact (complete_fieldToken ht).append ih

/-- **Arguments that pass the field check close every literal they open.** -/
theorem complete_of_checkSegment {db : UnicodeData} {known known' : List Text} {s : Segment}
    (h : checkSegment db known s = .ok known') : Complete s.2 := by
  obtain ⟨tokens, htokens, -⟩ := fieldTokens_of_checkSegment h
  exact complete_of_reads (reads_of_tokens htokens)

theorem complete_of_checkSegments {db : UnicodeData} {known known' : List Text} {segments : List Segment}
    (h : checkSegments db known segments = .ok known') : ∀ s ∈ segments, Complete s.2 := by
  induction segments generalizing known with
  | nil => simp
  | cons s segments ih =>
      rw [checkSegments] at h
      obtain ⟨middle, hs, hrest⟩ := bind_eq_ok.mp h
      exact List.forall_mem_cons.mpr ⟨complete_of_checkSegment hs, ih hrest⟩

/-! ### From the arguments to the parts of the text -/

theorem isQuote_of_isAsciiWord {c : Char} (h : isAsciiWord c = true) : isQuote c = false := by
  by_contra hq
  simp only [isQuote, Bool.not_eq_false, Bool.or_eq_true, beq_iff_eq] at hq
  rcases hq with rfl | rfl <;> exact absurd h (by decide)

/-- A command's name has no quote in it. -/
theorem complete_of_commandWord {db : UnicodeData} {part word args : Text}
    (h : commandWord db part = some (word, args)) (hargs : Complete args) : Complete part := by
  rw [commandWord] at h
  split at h
  · rename_i c cs hpart
    split at h
    · rename_i hc
      simp only [Option.some.injEq, Prod.mk.injEq] at h
      obtain ⟨rfl, rfl⟩ := h
      obtain ⟨sp, rfl, hsp, -⟩ := skipSpaces_eq_cons hpart
      have hletter : isQuote c = false := by
        rw [Bool.and_eq_true] at hc
        exact isQuote_of_isAsciiWord (by simp [isAsciiWord, hc.1])
      have hword : Complete (c :: cs.takeWhile isAsciiWord) :=
        complete_of_plain (List.forall_mem_cons.mpr ⟨hletter, fun d hd =>
          isQuote_of_isAsciiWord (List.all_eq_true.mp List.all_takeWhile d hd)⟩)
      have hspaces : Complete sp := complete_of_plain fun d hd => isQuote_of_isSpace (hsp d hd)
      have hcut : cs = cs.takeWhile isAsciiWord ++ cs.dropWhile isAsciiWord :=
        List.takeWhile_append_dropWhile.symm
      rw [hcut, ← List.cons_append]
      exact hspaces.append (hword.append hargs)
    · simp at h
  · simp at h

theorem complete_of_parseSegment {db : UnicodeData} {first : Bool} {part : Text} {segment : Segment}
    (h : parseSegment db first part = .ok segment) (hargs : Complete segment.2) : Complete part := by
  rcases parseSegment_cases h with ⟨-, rfl⟩ | ⟨word, args, c, hword, -, -, rfl⟩
  · exact hargs
  · exact complete_of_commandWord hword (complete_strip_iff.mp hargs)

/-- The parts of a parsed text are complete where the arguments of its segments are. -/
theorem complete_parts {db : UnicodeData} {parts : List Text} {segments : List Segment}
    (h : parseSegments db parts = .ok segments) (hargs : ∀ s ∈ segments, Complete s.2) :
    ∀ part ∈ parts, Complete part := by
  cases parts with
  | nil => simp
  | cons part parts =>
      obtain ⟨_, _, segment, others, hparts, rfl, hsegment, hothers⟩ := parseSegments_eq_ok h (by simp)
      obtain ⟨rfl, rfl⟩ := List.cons.inj hparts
      rw [List.forall_mem_cons] at hargs
      refine List.forall_mem_cons.mpr ⟨complete_of_parseSegment hsegment hargs.1, fun p hp => ?_⟩
      obtain ⟨s, hs, hparse⟩ := (mem_of_mapM hothers).2 p hp
      exact complete_of_parseSegment hparse (hargs.2 s hs)

/-! ### The text that is submitted -/

/-- What the normaliser appends has no quote in it. -/
theorem complete_preserveSegment {s : Segment} (h : Complete s.2) : Complete (preserveSegment s).1.2 := by
  have hmissing : Complete (preserveSegment.missing s.2) := by
    have hfields : ∀ f ∈ sourceFields, ∀ c ∈ ' ' :: f, isQuote c = false := by decide
    refine complete_of_plain fun c hc => ?_
    obtain ⟨f, hf, hin⟩ := List.mem_flatMap.mp hc
    exact hfields f (List.mem_filter.mp hf).1 c hin
  rcases preserveSegment_args s with heq | heq
  · rwa [heq]
  · rw [heq]
    exact h.append hmissing

theorem preserveSegments_complete {segments kept : List Segment} (h : preserveSegments segments = .ok kept)
    (hargs : ∀ s ∈ segments, Complete s.2) :
    kept.map Prod.fst = segments.map Prod.fst ∧ ∀ s ∈ kept, Complete s.2 := by
  induction segments generalizing kept with
  | nil =>
      simp only [preserveSegments, Except.ok.injEq] at h
      subst h
      simp
  | cons s segments ih =>
      rw [List.forall_mem_cons] at hargs
      obtain ⟨rest, -, hrest, rfl⟩ := preserveSegments_cons_eq_ok h
      obtain ⟨hcommands, hcomplete⟩ := ih hrest hargs.2
      rw [List.map_cons, List.map_cons, hcommands, preserveSegment_command]
      exact ⟨rfl, List.forall_mem_cons.mpr ⟨complete_preserveSegment hargs.1, hcomplete⟩⟩

theorem complete_text {s : Segment} (h : Complete s.2) : Complete s.text := by
  have hname : ∀ command : Command, Complete command.name := by
    intro command
    cases command <;> decide
  have hline : Complete (s.1.name ++ ' ' :: s.2) := (hname s.1).append h
  rw [← complete_strip_iff] at hline ⊢
  rwa [Segment.text, strip_rstrip]

/-- A rendered pipeline is cut where it was joined. -/
theorem quoted_pieces_render {segments : List Segment} (hne : segments ≠ [])
    (hpipe : ∀ s ∈ segments, '|' ∉ s.2) (hargs : ∀ s ∈ segments, Complete s.2) :
    (quoted_pieces (renderPipeline segments)).map strip = segments.map Segment.text := by
  have hparts : pipelineParts (renderPipeline segments) = segments.map Segment.text := by
    rw [renderPipeline, pipelineParts_join (by simpa using hne) fun t ht => ?_, List.map_map]
    · exact List.map_congr_left fun s _ => strip_text s
    · obtain ⟨s, hs, rfl⟩ := List.mem_map.mp ht
      exact not_mem_text (hpipe s hs)
  rw [quoted_pieces_of_parts fun part hpart => ?_]
  · exact hparts
  · rw [hparts] at hpart
    obtain ⟨s, hs, rfl⟩ := List.mem_map.mp hpart
    exact complete_text (hargs s hs)

/-! ### Allowed queries -/

/-- The segments that were checked are what a reader of literals cuts the text into, and none of
them opens a literal that it does not close. -/
structure CutAtItsPipes (db : UnicodeData) (value : Text) (segments : List Segment) : Prop where
  pieces_eq : quoted_pieces value = value.splitOn '|'
  pieces_complete : ∀ piece ∈ quoted_pieces value, Complete piece
  parsed : parseSegments db ((quoted_pieces value).map strip) = .ok segments

theorem cutAtItsPipes {db : UnicodeData} {value : Text} {segments : List Segment}
    (h : parseSegments db (pipelineParts value) = .ok segments) (hargs : ∀ s ∈ segments, Complete s.2) :
    CutAtItsPipes db value segments := by
  have hparts := complete_parts h hargs
  have heq := quoted_pieces_of_parts hparts
  refine ⟨heq, ?_, by rwa [heq]⟩
  intro piece hpiece
  rw [heq] at hpiece
  exact complete_strip_iff.mp (hparts (strip piece) (List.mem_map_of_mem hpiece))

/-- **Pipes and literals.** The text of an allowed query, and the normalised text that is
submitted, are cut at the pipes outside their literals into the commands that were checked. -/
theorem quoted_pieces_of_allowed {db : UnicodeData} {digest : CacheDigest} {policy : SPLPolicy}
    {proposal : QueryProposal} {open_question_ids : Option (List Text)} {result : QueryValidationResult}
    (hresult : policy.validate db digest proposal open_question_ids = .ok result)
    (hallowed : result.allowed = true) :
    ∃ parsed kept, parse_spl db proposal.spl = .ok parsed ∧
      validate_field_references db parsed policy.discovered_fields = .ok () ∧
      CutAtItsPipes db proposal.spl parsed.command_segments ∧
      kept.map Prod.fst = parsed.command_segments.map Prod.fst ∧
      result.normalized_spl = renderPipeline kept ∧
      (quoted_pieces result.normalized_spl).map strip = kept.map Segment.text := by
  obtain ⟨parsed, hparsed, hnormalized, hchecked⟩ := SPLPolicy.validate_parsed hresult hallowed
  obtain ⟨known, hcheck, -⟩ := bind_eq_ok.mp hchecked
  have hargs := complete_of_checkSegments hcheck
  have hpipes : ∀ s ∈ parsed.command_segments, '|' ∉ s.2 := fun s hs => (mem_command_segments hparsed hs).1
  have hne : parsed.command_segments ≠ [] := by
    obtain ⟨first, others, hsegments, -⟩ := command_segments_eq_cons hparsed
    simp [hsegments]
  have hsubmitted : ∃ kept : List Segment, kept.map Prod.fst = parsed.command_segments.map Prod.fst ∧
      result.normalized_spl = renderPipeline kept ∧ (∀ s ∈ kept, '|' ∉ s.2) ∧ ∀ s ∈ kept, Complete s.2 := by
    rw [preserve_raw_source_fields] at hnormalized
    split at hnormalized
    · -- an aggregate is submitted as it was parsed
      have hrendered := (parse_spl_eq_ok hparsed).2.1
      exact ⟨parsed.command_segments, rfl, by rw [← hrendered]; exact (Except.ok.inj hnormalized).symm,
        hpipes, hargs⟩
    · obtain ⟨kept, hkept, hrendered⟩ := map_eq_ok.mp hnormalized
      obtain ⟨hcommands, hcomplete⟩ := preserveSegments_complete hkept hargs
      exact ⟨kept, hcommands, hrendered.symm, preserveSegments_pipes hkept hpipes, hcomplete⟩
  obtain ⟨kept, hcommands, hrendered, hkeptPipes, hkeptArgs⟩ := hsubmitted
  have hkept : kept ≠ [] := by
    rintro rfl
    exact hne (List.map_eq_nil_iff.mp hcommands.symm)
  refine ⟨parsed, kept, hparsed, hchecked, cutAtItsPipes (parse_spl_eq_ok hparsed).1 hargs, hcommands,
    hrendered, ?_⟩
  rw [hrendered]
  exact quoted_pieces_render hkept hkeptPipes hkeptArgs

/-- A quoted pipe is no place to cut: the policy does not allow what `parse_spl` makes of it. -/
example : quoted_pieces "search a=\"x|y\" | head 5".toList = ["search a=\"x|y\" ".toList, " head 5".toList] ∧
    ¬(singleSourcePolicy ["a".toList]).Allows foldedLetters CacheMaterial.normalized_spl
      (singleSourceProposal "search index=main sourcetype=a a=\"x|y\"") none := by
  decide

theorem quoted_pieces_of_allowed_search :
    ∃ result : QueryValidationResult, ∃ kept : List Segment, result.allowed = true ∧
      (quoted_pieces result.normalized_spl).map strip = kept.map Segment.text := by
  have hallowed : (singleSourcePolicy ["user".toList]).Allows foldedLetters CacheMaterial.normalized_spl
      (singleSourceProposal "search index=main sourcetype=a user=\"x \\\" y\" | head 5") none := by
    decide
  obtain ⟨result, hresult, hallowed⟩ := hallowed
  obtain ⟨-, kept, -, -, -, -, -, hpieces⟩ := quoted_pieces_of_allowed hresult hallowed
  exact ⟨result, kept, hallowed, hpieces⟩

end ThreatHunting.Spl
