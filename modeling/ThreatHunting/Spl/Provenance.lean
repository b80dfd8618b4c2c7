import ThreatHunting.Spl.Flow
import ThreatHunting.Spl.Policy

/-!
# ThreatHunting.Spl.Provenance

Raw results keep their provenance. The normalised text of an allowed query reads back
as the segments the normaliser kept, and every kept segment leaves the columns
`index`, `sourcetype`, `_time` and `_cd` as they were — provided the normaliser, which
splits arguments with its own regular expressions, sees the names that a reader of
tokens sees.
-/

namespace ThreatHunting.Spl

open Fallible Scan

variable {db : UnicodeData}

/-! ### The normalised text -/

namespace Command

theorem name_word (c : Command) : ∀ d ∈ c.name, isAsciiWord d = true := by
  cases c <;> decide

theorem name_head (c : Command) : ∃ d cs, c.name = d :: cs ∧ isAsciiLetter d = true ∧
    isSpace d = false ∧ d ≠ '(' := by
  cases c <;> exact ⟨_, _, rfl, by decide, by decide, by decide⟩

theorem casefold_name (c : Command) : casefold c.name = c.name := by
  cases c <;> decide

theorem ofName?_name (c : Command) : ofName? c.name = some c := by
  cases c <;> decide

end Command

/-- A trimmed text that follows its command name reads back. -/
theorem commandWord_name (c : Command) {args : Text} (hargs : Stops isAsciiWord args)
    (hend : atWordEnd db args = true) : commandWord db (c.name ++ args) = some (c.name, args) := by
  obtain ⟨d, cs, hname, hletter, hspace, -⟩ := c.name_head
  have hword := c.name_word
  rw [hname, List.forall_mem_cons] at hword
  have hskip : skipSpaces (d :: cs ++ args) = d :: cs ++ args :=
    List.dropWhile_cons_of_neg (by simp [hspace])
  rw [hname, commandWord, hskip]
  simp only [List.cons_append, takeWhile_append_of_stops hword.2 hargs,
    dropWhile_append_of_stops hword.2 hargs, hletter, hend, Bool.and_self, if_true]

/-- `f"{command} {args}".rstrip()` without the trailing spaces of an empty argument. -/
theorem Segment.text_eq (s : Segment) :
    s.text = s.1.name ++ if (rstrip s.2).isEmpty then [] else ' ' :: rstrip s.2 := by
  have hname : rstrip s.1.name = s.1.name := by
    cases s.1 <;> decide
  have hsplit : rstrip (' ' :: s.2) = if (rstrip s.2).isEmpty then [] else ' ' :: rstrip s.2 := by
    have hspace : rstrip [' '] = [] := by decide
    rw [← List.singleton_append, rstrip_append, hspace]
    rfl
  rw [Segment.text, rstrip_append, hsplit]
  split <;> simp_all

theorem strip_rstrip (cs : Text) : strip (rstrip cs) = strip cs := by
  obtain ⟨sp, rest, rfl, -, hdrop, hsp, hstop⟩ := exists_run isSpace cs
  have hskip : skipSpaces (sp ++ rest) = rest := hdrop
  rw [rstrip_append, strip, strip, hskip]
  split
  · rename_i hempty
    have hblank : ∀ c ∈ rstrip sp, isSpace c = true := fun c hc =>
      hsp c ((List.rdropWhile_prefix _ _).subset hc)
    have hnil : skipSpaces (rstrip sp) = [] := List.dropWhile_eq_nil_iff.mpr hblank
    rw [hnil]
    simpa [rstrip] using (List.isEmpty_iff.mp hempty).symm
  · rename_i hne
    have hstop' : Stops isSpace (rstrip rest) := by
      intro c hc
      obtain ⟨t, ht⟩ := List.rdropWhile_prefix isSpace rest
      refine hstop c ?_
      rw [← ht, List.head?_append, show (List.rdropWhile isSpace rest).head? = some c from hc]
      rfl
    rw [skipSpaces, dropWhile_append_of_stops hsp hstop', rstrip, rstrip,
      List.rdropWhile_idempotent]

/-- A rendered segment begins with its command and ends with no whitespace. -/
theorem strip_text (s : Segment) : strip s.text = s.text := by
  obtain ⟨d, cs, hname, -, hspace, -⟩ := s.1.name_head
  have hskip : skipSpaces s.text = s.text := by
    rw [Segment.text_eq, hname]
    exact List.dropWhile_cons_of_neg (by simp [hspace])
  rw [strip, hskip, Segment.text, rstrip, rstrip, List.rdropWhile_idempotent]

theorem not_mem_text {s : Segment} (h : '|' ∉ s.2) : '|' ∉ s.text := by
  intro hmem
  have hname : '|' ∉ s.1.name := by cases s.1 <;> decide
  have hline := (List.rdropWhile_prefix isSpace _).subset hmem
  rw [List.mem_append, List.mem_cons] at hline
  rcases hline with h' | h' | h'
  · exact hname h'
  · exact absurd h' (by decide)
  · exact h h'

/-- A rendered segment reads back, with its arguments stripped. -/
theorem parseSegment_text {first : Bool} {s : Segment} (hs : first = true → s.1 = .search) :
    parseSegment db first (strip s.text) = .ok (s.1, strip s.2) := by
  obtain ⟨d, cs, hname, hletter, hspace, hparen⟩ := s.1.name_head
  have hword : ∃ args, commandWord db s.text = some (s.1.name, args) ∧ strip args = strip s.2 := by
    rw [Segment.text_eq]
    split
    · rename_i hempty
      refine ⟨[], commandWord_name s.1 stops_nil rfl, ?_⟩
      rw [← strip_rstrip s.2, List.isEmpty_iff.mp hempty]
    · refine ⟨' ' :: rstrip s.2, commandWord_name s.1 (stops_cons.mpr (by decide)) rfl, ?_⟩
      rw [strip_cons (by decide), strip_rstrip]
  obtain ⟨args, hword, hargs⟩ := hword
  have hgroup : (first && s.text.head? == some '(') = false := by
    rw [Segment.text_eq, hname]
    simp [hparen]
  have hfirst : (first && s.1.name != "search".toList) = false := by
    cases first with
    | false => rfl
    | true =>
        rw [hs rfl]
        decide
  rw [strip_text, parseSegment, hgroup, if_neg (by decide), hword]
  simp only [Command.casefold_name, hfirst, Bool.false_eq_true, if_false, Command.ofName?_name,
    hargs]

theorem pipelineParts_join {texts : List Text} (hne : texts ≠ []) (h : ∀ t ∈ texts, '|' ∉ t) :
    pipelineParts (join " | " texts) = texts.map strip := by
  induction texts with
  | nil => exact absurd rfl hne
  | cons t texts ih =>
      rw [List.forall_mem_cons] at h
      have hsep : " | ".toList = [' ', '|', ' '] := by decide
      cases texts with
      | nil =>
          rw [join, hsep, List.intercalate_singleton, pipelineParts, List.splitOn_eq_singleton h.1]
      | cons u texts =>
          have ih := ih (by simp) h.2
          rw [join, hsep] at ih
          rw [join, hsep, List.intercalate_cons_cons]
          have hcut : t ++ [' ', '|', ' '] ++ [' ', '|', ' '].intercalate (u :: texts)
              = (t ++ [' ']) ++ '|' :: (' ' :: [' ', '|', ' '].intercalate (u :: texts)) := by simp
          have hmem : '|' ∉ t ++ [' '] := by simp [h.1]
          have hstrip : strip (t ++ [' ']) = strip t := by
            rw [← strip_rstrip, rstrip_append, show rstrip [' '] = [] by decide]
            simp [strip_rstrip]
          rw [hcut, pipelineParts, List.splitOn_append_cons_self_of_not_mem hmem, List.map_cons, hstrip,
            List.splitOn_cons_eq_if_modifyHead, if_neg (by decide), List.map_cons]
          rw [pipelineParts] at ih
          cases hsplit : ([' ', '|', ' '].intercalate (u :: texts)).splitOn '|' with
          | nil => exact absurd hsplit (List.splitOn_ne_nil _ _)
          | cons first rest =>
              rw [hsplit] at ih
              rw [List.modifyHead_cons, List.map_cons, strip_cons (by decide), ← List.map_cons, ih,
                List.map_cons]

/-- **The normalised text reads back** as the segments it was written from. -/
theorem parseSegments_render {s : Segment} {rest : List Segment} (hs : s.1 = .search)
    (h : ∀ t ∈ s :: rest, '|' ∉ t.2) :
    parseSegments db (pipelineParts (renderPipeline (s :: rest))) =
      .ok ((s :: rest).map fun t => (t.1, strip t.2)) := by
  have htexts : ∀ t ∈ (s :: rest).map Segment.text, '|' ∉ t := by
    intro t ht
    obtain ⟨u, hu, rfl⟩ := List.mem_map.mp ht
    exact not_mem_text (h u hu)
  have hothers : (rest.map fun t => strip t.text).mapM (parseSegment db false) =
      .ok (rest.map fun t => (t.1, strip t.2)) := by
    induction rest with
    | nil => rfl
    | cons t rest ih =>
        have ih := ih (fun u hu => h u (by simp at hu ⊢; tauto))
          (fun u hu => htexts u (by simp at hu ⊢; tauto))
        rw [List.map_cons, List.mapM_cons, parseSegment_text (by simp), ih]
        rfl
  rw [renderPipeline, pipelineParts_join (by simp) htexts, List.map_map, List.map_cons, parseSegments]
  simp only [Function.comp_def, parseSegment_text (fun _ => hs), hothers]
  rfl

/-! ### What the two readers must agree on -/

/-- The normaliser reads the arguments as a reader of tokens does, as far as provenance
is concerned: a field that a `fields -` or a `rename` names is among the words the
normaliser checks, and a field whose word it finds in a projection is named there. -/
def readAlike (s : Segment) : Bool :=
  match fieldTokens s.2 with
  | none => true
  | some tokens =>
      sourceFields.all fun f =>
        let listed := (Flow.listNames tokens).any (Glob.wildcard · f)
        match s.1 with
        | .fields =>
            if s.2.head? == some '-' then
              !listed || (removedWords s.2).any (Glob.fnmatch · f)
            else f ∉ selectedWords s.2 || listed
        | .table => f ∉ selectedWords s.2 || listed
        | .rename =>
            !((Flow.clauses tokens).any fun c => Glob.wildcard c.1 f || Glob.wildcard c.2 f)
              || (renamedWords s.2).any (Glob.fnmatch · f)
        | _ => true

/-! ### Columns left alone -/

section Columns

variable {V : Type} {f : Text}

theorem lookup_filter {p : Text × V → Bool} (h : ∀ v, p (f, v) = true) (row : Row V) :
    (row.filter p).lookup f = row.lookup f := by
  induction row with
  | nil => rfl
  | cons c row ih =>
      obtain ⟨n, v⟩ := c
      by_cases hn : f = n
      · subst hn
        rw [List.filter_cons_of_pos (h v), List.lookup_cons_self, List.lookup_cons_self]
      · have hne : (f == n) = false := by simpa using hn
        rw [List.lookup_cons, hne]
        by_cases hp : p (n, v) = true
        · rw [List.filter_cons_of_pos hp, List.lookup_cons, hne, ih]
        · rw [List.filter_cons_of_neg hp, ih]

theorem lookup_append_of_ne {xs ys : Row V} (h : ∀ c ∈ xs, c.1 ≠ f) :
    (xs ++ ys).lookup f = ys.lookup f := by
  induction xs with
  | nil => rfl
  | cons c xs ih =>
      rw [List.forall_mem_cons] at h
      obtain ⟨n, v⟩ := c
      have hne : (f == n) = false := by simpa using Ne.symm h.1
      rw [List.cons_append, List.lookup_cons, hne, ih h.2]

theorem lookup_keep {names : List Text} (h : names.any (Glob.wildcard · f) = true) (row : Row V) :
    (Flow.keep names row).lookup f = row.lookup f :=
  lookup_filter (fun _ => h) row

theorem lookup_drop {names : List Text} (h : names.any (Glob.wildcard · f) = false) (row : Row V) :
    (Flow.drop names row).lookup f = row.lookup f :=
  lookup_filter (fun _ => by simp [h]) row

/-- A rename whose source and target both miss a column leaves it alone. -/
theorem lookup_moveColumns {clause : Text × Text} (hs : Glob.wildcard clause.1 f = false)
    (ht : Glob.wildcard clause.2 f = false) (row : Row V) :
    (Flow.moveColumns row clause).lookup f = row.lookup f := by
  have hmoved : ∀ c ∈ row.filterMap (fun c =>
      (Glob.capture clause.1 c.1).map fun caps => (Glob.fill clause.2 caps, c.2)), c.1 ≠ f := by
    intro c hc hcf
    obtain ⟨d, -, hd⟩ := List.mem_filterMap.mp hc
    obtain ⟨caps, -, rfl⟩ := Option.map_eq_some_iff.mp hd
    rw [← hcf, Glob.wildcard_fill] at ht
    exact absurd ht (by simp)
  have hne : f ≠ clause.2 := by
    rintro rfl
    rw [Glob.wildcard_self] at ht
    exact absurd ht (by simp)
  rw [Flow.moveColumns, lookup_append_of_ne hmoved]
  exact lookup_filter (fun v => by simp [hs, hne]) row

theorem lookup_renames {clauses : List (Text × Text)}
    (h : (clauses.any fun c => Glob.wildcard c.1 f || Glob.wildcard c.2 f) = false) (row : Row V) :
    (clauses.foldl Flow.moveColumns row).lookup f = row.lookup f := by
  induction clauses generalizing row with
  | nil => rfl
  | cons c clauses ih =>
      rw [List.any_cons, Bool.or_eq_false_iff, Bool.or_eq_false_iff] at h
      rw [List.foldl_cons, ih h.2, lookup_moveColumns h.1.1 h.1.2]

theorem lookup_evalColumn {value : List Text → Row V → Option V} {assignment : List Text}
    (h : Flow.nameOf (assignment.headD []) ≠ f) (row : Row V) :
    (Flow.evalColumn value row assignment).lookup f = row.lookup f := by
  rw [Flow.evalColumn, Flow.assign, lookup_append_of_ne (by simpa using fun _ _ => h)]
  exact lookup_filter (fun v => by simpa using Ne.symm h) row

theorem lookup_evals {value : List Text → Row V → Option V} {assignments : List (List Text)}
    (h : ∀ a ∈ assignments, Flow.nameOf (a.headD []) ≠ f) (row : Row V) :
    (assignments.foldl (Flow.evalColumn value) row).lookup f = row.lookup f := by
  induction assignments generalizing row with
  | nil => rfl
  | cons a assignments ih =>
      rw [List.forall_mem_cons] at h
      rw [List.foldl_cons, ih h.2, lookup_evalColumn h.1]

end Columns

/-! ### Assignments -/

/-- Where an assignment begins: at the start of the tokens or after a comma. -/
def BeginsAssignment (pre : List Text) : Prop := pre = [] ∨ ∃ pre', pre = pre' ++ [[',']]

theorem mem_assignments {current tokens before : List Text} {depth : Int}
    (hbefore : BeginsAssignment before) {a : List Text}
    (ha : a ∈ Flow.assignments current depth tokens) :
    ∃ pre post, before ++ current ++ tokens = pre ++ a ++ post ∧ BeginsAssignment pre := by
  induction tokens generalizing current depth before with
  | nil =>
      simp only [Flow.assignments, List.mem_singleton] at ha
      exact ⟨before, [], by simp [ha], hbefore⟩
  | cons token tokens ih =>
      rw [Flow.assignments] at ha
      split at ha
      · obtain ⟨pre, post, heq, hpre⟩ := ih hbefore ha
        exact ⟨pre, post, by rw [← heq]; simp, hpre⟩
      · rename_i hcomma
        simp only [Bool.or_eq_true, decide_eq_true_eq, not_or, not_not] at hcomma
        obtain ⟨rfl, -⟩ := hcomma
        rcases List.mem_cons.mp ha with rfl | ha
        · exact ⟨before, [','] :: tokens, by simp, hbefore⟩
        · obtain ⟨pre, post, heq, hpre⟩ :=
            ih (show BeginsAssignment (before ++ current ++ [[',']]) from .inr ⟨_, rfl⟩) ha
          exact ⟨pre, post, by rw [← heq]; simp, hpre⟩

/-- An accepted assignment is `target = value`. -/
theorem checkAssignment_eq_ok {known assignment : List Text} {name : Text}
    (h : checkAssignment db known assignment = .ok name) :
    ∃ target rest, assignment = target :: ['='] :: rest ∧ field_name target = .ok name := by
  rw [checkAssignment] at h
  split at h
  · simp [syntaxNotSupported, fieldError] at h
  · rename_i hshape
    split at h
    · simp [syntaxNotSupported, fieldError] at h
    · obtain ⟨-, -, hname⟩ := bind_eq_ok.mp h
      simp only [Bool.or_eq_true, decide_eq_true_eq, bne_iff_ne, ne_eq, not_or, not_lt,
        not_not] at hshape
      match assignment, hshape with
      | target :: equals :: rest, hshape =>
          obtain rfl : equals = ['='] := by simpa using hshape.2
          exact ⟨target, rest, rfl, hname⟩

/-- The validator accepted every assignment. -/
theorem assignments_of_evalLoop {known known' current tokens : List Text} {depth : Int}
    (h : evalLoop db known current depth (tokens ++ [[',']]) = .ok known') :
    ∀ a ∈ Flow.assignments current depth tokens,
      ∃ target rest name, a = target :: ['='] :: rest ∧ field_name target = .ok name := by
  induction tokens generalizing known current depth with
  | nil =>
      intro a ha
      obtain rfl : a = current := by simpa [Flow.assignments] using ha
      have hdepth : depthAfter depth [','] = depth := by simp [depthAfter]
      rw [List.nil_append, evalLoop] at h
      simp only [hdepth] at h
      split at h
      · simp [syntaxNotSupported, fieldError] at h
      · split at h
        · -- an open parenthesis is refused at the end
          rename_i hopen
          rw [evalLoop, if_pos (by simpa using hopen)] at h
          simp [syntaxNotSupported, fieldError] at h
        · obtain ⟨name, hname, -⟩ := bind_eq_ok.mp h
          obtain ⟨target, rest, heq, hfield⟩ := checkAssignment_eq_ok hname
          exact ⟨target, rest, name, heq, hfield⟩
  | cons token tokens ih =>
      rw [List.cons_append, evalLoop] at h
      rw [Flow.assignments]
      split at h
      · simp [syntaxNotSupported, fieldError] at h
      · split at h
        · rename_i hcomma
          rw [if_pos hcomma]
          exact ih h
        · rename_i hcomma
          rw [if_neg hcomma]
          obtain ⟨name, hname, hrest⟩ := bind_eq_ok.mp h
          obtain ⟨target, rest, heq, hfield⟩ := checkAssignment_eq_ok hname
          exact List.forall_mem_cons.mpr ⟨⟨target, rest, name, heq, hfield⟩, ih hrest⟩

/-! ### The normaliser finds every assignment -/

/-- A provenance name as it can be written: plain, or between quotes. -/
inductive WrittenName (f : Text) : Text → Prop
  | plain : WrittenName f f
  | quoted {q} : q ∈ quoteChars → WrittenName f (q :: (f ++ [q]))

theorem unescapeQuotes_eq {body f : Text} (hf : ∀ c ∈ f, c ∉ ['"', '\'', '\\'])
    (h : unescapeQuotes body = f) : body = f := by
  fun_induction unescapeQuotes body generalizing f with
  | case1 c cs hc ih =>
      subst h
      have := hf c List.mem_cons_self
      simp only [Bool.or_eq_true, beq_iff_eq] at hc
      simp at this
      tauto
  | case2 c cs hc ih =>
      subst h
      exact absurd (hf '\\' List.mem_cons_self) (by simp)
  | case3 c cs hne ih =>
      subst h
      exact congrArg (c :: ·) (ih (fun d hd => hf d (List.mem_cons_of_mem _ hd)) rfl)
  | case4 => exact h

theorem writtenName_of_field_name {f target : Text} (hf : ∀ c ∈ f, c ∉ ['"', '\'', '\\'])
    (h : field_name target = .ok f) : WrittenName f target := by
  rw [field_name] at h
  split at h
  · rename_i hquoted
    split at h
    · simp [syntaxNotSupported, fieldError] at h
    · rename_i hlen
      simp only [Except.ok.injEq] at h
      have hbody := unescapeQuotes_eq hf h
      simp only [Bool.or_eq_true, decide_eq_true_eq, bne_iff_ne, ne_eq, not_or, not_lt,
        not_not] at hlen
      cases target with
      | nil => simp at hlen
      | cons q target =>
          have hq : q ∈ quoteChars := by simpa [isQuoted] using hquoted
          have hne : target ≠ [] := by
            rintro rfl
            simp at hlen
          have hlast : target.getLast hne = q := by
            have := hlen.2
            rw [List.getLast?_cons, List.getLast?_eq_some_getLast hne] at this
            simpa using this
          have hsplit : target = f ++ [q] := by
            rw [← hbody, List.tail_cons, ← hlast, List.dropLast_append_getLast hne]
          rw [hsplit]
          exact .quoted hq
  · simp only [Except.ok.injEq] at h
    exact h ▸ .plain

/-- A name the normaliser's patterns can capture. -/
def IsPlainName (f : Text) : Prop :=
  f ≠ [] ∧ (∀ c ∈ f.head?, (isAsciiLetter c || c == '_') = true) ∧ ∀ c ∈ f, isAsciiWord c = true

instance (f : Text) : Decidable (IsPlainName f) := by unfold IsPlainName; infer_instance

theorem plainName_append {f rest : Text} (hf : IsPlainName f) (hrest : Stops isAsciiWord rest) :
    plainName (f ++ rest) = some (f, rest) := by
  obtain ⟨hne, hhead, hword⟩ := hf
  obtain ⟨c, cs, rfl⟩ := List.exists_cons_of_ne_nil hne
  rw [List.forall_mem_cons] at hword
  rw [List.cons_append, plainName, if_pos (hhead c rfl),
    takeWhile_append_of_stops hword.2 hrest, dropWhile_append_of_stops hword.2 hrest]

theorem skipQuote_of_word {f rest : Text} (hf : IsPlainName f) : skipQuote (f ++ rest) = f ++ rest := by
  obtain ⟨hne, -, hword⟩ := hf
  obtain ⟨c, cs, rfl⟩ := List.exists_cons_of_ne_nil hne
  have hc := hword c List.mem_cons_self
  rw [List.cons_append, skipQuote, if_neg]
  rintro hq
  simp only [Bool.or_eq_true, beq_iff_eq] at hq
  rcases hq with rfl | rfl <;> exact absurd hc (by decide)

theorem assignmentName_of_written {f target sp₁ sp₂ rest : Text} (hf : IsPlainName f)
    (htarget : WrittenName f target) (hsp₁ : ∀ c ∈ sp₁, isSpace c = true)
    (hsp₂ : ∀ c ∈ sp₂, isSpace c = true) :
    assignmentName (sp₁ ++ (target ++ (sp₂ ++ '=' :: rest))) = some f := by
  have hequals : skipSpaces (sp₂ ++ '=' :: rest) = '=' :: rest :=
    skipSpaces_append hsp₂ (by decide)
  -- neither whitespace nor `=` continues a name or closes a quote
  have hstop : Stops isAsciiWord (sp₂ ++ '=' :: rest) ∧
      skipQuote (sp₂ ++ '=' :: rest) = sp₂ ++ '=' :: rest := by
    cases sp₂ with
    | nil => exact ⟨stops_cons.mpr (by decide), rfl⟩
    | cons c sp₂ =>
        have hc := hsp₂ c List.mem_cons_self
        refine ⟨stops_cons.mpr (of_isSpace (fun d => isAsciiWord d = false) (by decide) hc), ?_⟩
        have hne := of_isSpace (fun d => (d == '"' || d == '\'') = false) (by decide) hc
        rw [List.cons_append, skipQuote, if_neg (by simp [hne])]
  have hwords := hf
  obtain ⟨hne, -, hword⟩ := hwords
  obtain ⟨c, cs, hcs⟩ := List.exists_cons_of_ne_nil hne
  have hspace : isSpace c = false := by
    by_contra hs
    have := of_isSpace (fun d => isAsciiWord d = false) (by decide) (Bool.eq_true_of_not_eq_false hs)
    rw [hword c (by simp [hcs])] at this
    exact absurd this (by simp)
  cases htarget with
  | plain =>
      have hskip : skipSpaces (sp₁ ++ (f ++ (sp₂ ++ '=' :: rest))) = f ++ (sp₂ ++ '=' :: rest) := by
        rw [hcs, List.cons_append]
        exact skipSpaces_append hsp₁ hspace
      rw [assignmentName, hskip, skipQuote_of_word hf, plainName_append hf hstop.1]
      simp only [Option.bind_some, hstop.2, hequals]
  | @quoted q hq =>
      have hquote : (q == '"' || q == '\'') = true := by simpa [quoteChars] using hq
      have hqspace : isSpace q = false := by
        simp only [Bool.or_eq_true, beq_iff_eq] at hquote
        rcases hquote with rfl | rfl <;> decide
      have hqword : Stops isAsciiWord (q :: (sp₂ ++ '=' :: rest)) := by
        simp only [Bool.or_eq_true, beq_iff_eq] at hquote
        rcases hquote with rfl | rfl <;> exact stops_cons.mpr (by decide)
      have hskip : skipSpaces (sp₁ ++ (q :: (f ++ [q]) ++ (sp₂ ++ '=' :: rest))) =
          q :: (f ++ q :: (sp₂ ++ '=' :: rest)) := by
        rw [show q :: (f ++ [q]) ++ (sp₂ ++ '=' :: rest) = q :: (f ++ q :: (sp₂ ++ '=' :: rest)) by
          simp]
        exact skipSpaces_append hsp₁ hqspace
      rw [assignmentName, hskip, skipQuote, if_pos hquote, plainName_append hf hqword]
      simp only [Option.bind_some, skipQuote, hquote, if_true, hequals]

/-- The normaliser's pattern finds every assignment of a plain name. -/
theorem mem_assignedWords {args f target : Text} {pre rest post tokens : List Text}
    (htokens : fieldTokens args = some tokens)
    (hsplit : tokens = pre ++ (target :: ['='] :: rest) ++ post) (hpre : BeginsAssignment pre)
    (hf : IsPlainName f) (htarget : WrittenName f target) : f ∈ assignedWords args := by
  have hlaid := (reads_of_tokens htokens).laid textual_fieldToken
  rw [hsplit, List.append_assoc] at hlaid
  obtain ⟨x, y, rfl, hx, hy⟩ := hlaid.split
  have hy' : Laid isSpace y ([] ++ ['='] :: (rest ++ post)) := hy
  obtain ⟨sp₂, y', rfl, hsp₂, -⟩ := hy'.split
  have hname : ∀ sp : Text, (∀ c ∈ sp, isSpace c = true) →
      assignmentName (sp ++ (target ++ (sp₂ ++ ('=' :: y')))) = some f :=
    fun sp hsp => assignmentName_of_written hf htarget hsp hsp₂.blank
  rcases hpre with rfl | ⟨pre, rfl⟩
  · have hfirst := hname x hx.blank
    cases hargs : x ++ (target ++ (sp₂ ++ (['='] ++ y'))) with
    | nil => simp at hargs
    | cons c cs =>
        have hfound : assignedName ([] : Text).getLast? (c :: cs) = some f :=
          Option.or_eq_some_iff.mpr (.inl (by rw [← hargs]; exact hfirst))
        exact mem_findAll hfound
  · obtain ⟨x', sp, rfl, hsp⟩ := hx.last
    have hcut : x' ++ ([','] ++ sp) ++ (target ++ (sp₂ ++ (['='] ++ y'))) =
        x' ++ ',' :: (sp ++ (target ++ (sp₂ ++ ('=' :: y')))) := by simp
    rw [assignedWords, hcut]
    refine mem_findAll ?_
    have hcomma : assignmentName (',' :: (sp ++ (target ++ (sp₂ ++ ('=' :: y'))))) = none := rfl
    rw [assignedName, hcomma]
    simp [hname sp hsp]

/-! ### One segment -/

theorem modifiesSource_eq_false {modified : List Text} (h : modifiesSource modified = false) :
    ∀ f ∈ sourceFields, (modified.any fun p => Glob.fnmatch p f) = false := by
  intro f hf
  have := List.any_eq_false.mp h f hf
  simpa using this

theorem isPlainName_of_mem {f : Text} (hf : f ∈ sourceFields) :
    IsPlainName f ∧ ∀ c ∈ f, c ∉ ['"', '\'', '\\'] := by
  have hall : ∀ f ∈ sourceFields, IsPlainName f ∧ ∀ c ∈ f, c ∉ ['"', '\'', '\\'] := by decide
  exact hall f hf

/-- The validator read the arguments. -/
theorem fieldTokens_of_checkSegment {known known' : List Text} {s : Segment}
    (h : checkSegment db known s = .ok known') :
    ∃ tokens, fieldTokens s.2 = some tokens ∧
      (s.1 = .eval → evalLoop db known [] 0 (tokens ++ [[',']]) = .ok known') := by
  obtain ⟨command, args⟩ := s
  rw [checkSegment] at h
  cases htokens : fieldTokens args with
  | none => simp [htokens, syntaxNotSupported, fieldError] at h
  | some tokens =>
      refine ⟨tokens, rfl, ?_⟩
      rintro rfl
      simpa [htokens] using h

/-- The fields the normaliser appends read as so many more tokens. -/
theorem reads_append_fields {fields : List Text} (hfields : ∀ f ∈ fields, f ∈ sourceFields)
    {args : Text} {tokens : List Text} (h : Reads isSpace fieldToken args tokens) :
    Reads isSpace fieldToken (args ++ fields.flatMap (' ' :: ·)) (tokens ++ fields) := by
  have hone : ∀ f ∈ sourceFields, fieldTokens (' ' :: f) = some [f] := by decide
  induction fields generalizing args tokens with
  | nil => simpa using h
  | cons f fields ih =>
      rw [List.forall_mem_cons] at hfields
      have hf := h.append (fun ht => fieldToken_append ht f) (reads_of_tokens (hone f hfields.1))
      have := ih hfields.2 hf
      simpa using this

theorem consuming_fieldToken : Consuming fieldToken := by
  intro cs t rest h
  obtain ⟨rfl, hne⟩ := textual_fieldToken h
  have := List.length_pos_iff.mpr hne
  rw [List.length_append]
  omega

theorem fieldTokens_missing {args : Text} {tokens : List Text} (htrim : Trimmed args)
    (h : fieldTokens args = some tokens) :
    fieldTokens (strip (args ++ preserveSegment.missing args)) =
      some (tokens ++ sourceFields.filter (· ∉ selectedWords args)) := by
  have hfields : ∀ f ∈ sourceFields.filter (· ∉ selectedWords args), f ∈ sourceFields :=
    fun f hf => (List.mem_filter.mp hf).1
  have hreads := reads_append_fields hfields (reads_of_tokens h)
  have hlast : ∀ c ∈ (args ++ preserveSegment.missing args).getLast?, isSpace c = false := by
    have hfields : ∀ f ∈ sourceFields, f ≠ [] ∧ ∀ c ∈ f.getLast?, isSpace c = false := by decide
    rw [preserveSegment.missing]
    rcases List.eq_nil_or_concat (sourceFields.filter (· ∉ selectedWords args)) with hnil | ⟨fs, f, hfs⟩
    · rw [hnil]
      simpa using htrim.2
    · have hf : f ∈ sourceFields := by
        have : f ∈ sourceFields.filter (· ∉ selectedWords args) := by rw [hfs]; simp
        exact (List.mem_filter.mp this).1
      obtain ⟨hne, hl⟩ := hfields f hf
      intro c hc
      refine hl c ?_
      rw [hfs] at hc
      simpa [List.getLast?_append, List.getLast?_cons, hne, List.getLast?_eq_some_getLast hne] using hc
  rw [strip_of_getLast hlast]
  exact (tokens_eq_some_iff consuming_fieldToken).mpr hreads.dropWhile

/-- Appending the missing fields does not turn a projection into a removal. -/
theorem head?_strip_missing {args : Text} (htrim : Trimmed args) (h : args.head? ≠ some '-') :
    ((strip (args ++ preserveSegment.missing args)).head? == some '-') = false := by
  cases args with
  | nil => decide
  | cons c args =>
      have hc : isSpace c = false := htrim.1 c rfl
      have hskip : skipSpaces (c :: args ++ preserveSegment.missing (c :: args)) =
          c :: args ++ preserveSegment.missing (c :: args) :=
        List.dropWhile_cons_of_neg (by simp [hc])
      rw [strip, hskip, beq_eq_false_iff_ne]
      intro hdash
      obtain ⟨rest, hrest⟩ := List.rdropWhile_prefix isSpace
        (c :: args ++ preserveSegment.missing (c :: args))
      rw [rstrip] at hdash
      have hhead := congrArg List.head? hrest
      rw [List.head?_append, hdash] at hhead
      exact h (by simpa using hhead.symm)

theorem listNames_append (xs ys : List Text) :
    Flow.listNames (xs ++ ys) = Flow.listNames xs ++ Flow.listNames ys := by
  simp [Flow.listNames]

/-- A projection that names every provenance field, or has it appended, keeps them all. -/
theorem keeps_source {args f : Text} {tokens : List Text} (hf : f ∈ sourceFields)
    (h : f ∈ selectedWords args → (Flow.listNames tokens).any (Glob.wildcard · f) = true) :
    (Flow.listNames (tokens ++ sourceFields.filter (· ∉ selectedWords args))).any
      (Glob.wildcard · f) = true := by
  have hnames : ∀ f ∈ sourceFields, f ∈ Flow.listNames [f] := by decide
  rw [listNames_append, List.any_append, Bool.or_eq_true]
  by_cases hsel : f ∈ selectedWords args
  · exact .inl (h hsel)
  · have hmem : f ∈ sourceFields.filter (· ∉ selectedWords args) :=
      List.mem_filter.mpr ⟨hf, by simpa using hsel⟩
    obtain ⟨xs, ys, hsplit⟩ := List.append_of_mem hmem
    refine .inr (List.any_eq_true.mpr ⟨f, ?_, Glob.wildcard_self f⟩)
    rw [hsplit, ← List.singleton_append, listNames_append, listNames_append]
    exact List.mem_append_right _ (List.mem_append_left _ (hnames f hf))

/-- No accepted assignment of an `eval` the normaliser let pass has a provenance target. -/
theorem evals_miss_source {args f : Text} {tokens known known' : List Text}
    (htokens : fieldTokens args = some tokens)
    (hloop : evalLoop db known [] 0 (tokens ++ [[',']]) = .ok known') (hf : f ∈ sourceFields)
    (hmod : (assignedWords args).any (Glob.fnmatch · f) = false) :
    ∀ a ∈ Flow.assignments [] 0 tokens, Flow.nameOf (a.headD []) ≠ f := by
  intro a ha hname
  obtain ⟨target, rest, name, rfl, hfield⟩ := assignments_of_evalLoop hloop a ha
  obtain ⟨pre, post, hsplit, hpre⟩ := mem_assignments (.inl rfl) ha
  obtain ⟨hplain, hchars⟩ := isPlainName_of_mem hf
  have hnf : name = f := by
    rw [List.headD_cons, Flow.nameOf, hfield] at hname
    exact hname
  subst hnf
  have hmem := mem_assignedWords htokens (by simpa using hsplit) hpre hplain
    (writtenName_of_field_name hchars hfield)
  have := List.any_eq_false.mp hmod name hmem
  exact this (Glob.fnmatch_self name)

/-- **Every segment leaves provenance alone.** -/
theorem step_preserves {V : Type} {value : List Text → Row V → Option V}
    {known known' : List Text} {s : Segment} (hcheck : checkSegment db known s = .ok known')
    (htrim : Trimmed s.2) (halike : readAlike s = true)
    (hmod : modifiesSource (preserveSegment s).2 = false) (row : Row V) :
    ∃ row', Flow.step value row ((preserveSegment s).1.1, strip (preserveSegment s).1.2) = some row' ∧
      ∀ f ∈ sourceFields, row'.lookup f = row.lookup f := by
  obtain ⟨tokens, htokens, heval⟩ := fieldTokens_of_checkSegment hcheck
  have hunseen := modifiesSource_eq_false hmod
  obtain ⟨command, args⟩ := s
  simp only [readAlike, htokens, List.all_eq_true] at halike
  have hstrip : strip args = args := strip_of_trimmed htrim
  simp only at htokens heval htrim
  -- a projection keeps what it names or what was appended
  have hkeep : (∀ f ∈ sourceFields, f ∈ selectedWords args →
      (Flow.listNames tokens).any (Glob.wildcard · f) = true) →
      ∃ row', (fieldTokens (strip (args ++ preserveSegment.missing args))).map
        (fun tokens => Flow.keep (Flow.listNames tokens) row) = some row' ∧
        ∀ f ∈ sourceFields, row'.lookup f = row.lookup f := by
    intro h
    rw [fieldTokens_missing htrim htokens]
    exact ⟨_, rfl, fun f hf => lookup_keep (keeps_source hf (h f hf)) row⟩
  cases command with
  | fields =>
      by_cases hdash : (args.head? == some '-') = true
      · -- `fields -`: the normaliser would have refused a list that names the field
        have hpres : preserveSegment (.fields, args) = ((.fields, args), removedWords args) := by
          simp [preserveSegment, hdash]
        rw [hpres] at hunseen ⊢
        refine ⟨Flow.drop (Flow.listNames tokens) row, by simp [hstrip, Flow.step, htokens, hdash], ?_⟩
        intro f hf
        refine lookup_drop ?_ row
        have halike := halike f hf
        simp only [hdash, if_true, hunseen f hf, Bool.or_false] at halike
        simpa using halike
      · have hpres : preserveSegment (.fields, args) =
            ((.fields, args ++ preserveSegment.missing args), []) := by
          simp [preserveSegment, hdash]
        obtain ⟨row', hrow, hlookup⟩ := hkeep fun f hf hsel => by
          have halike := halike f hf
          simpa [hdash, hsel] using halike
        have hdash' := head?_strip_missing htrim (by simpa using hdash)
        rw [hpres]
        refine ⟨row', ?_, hlookup⟩
        rw [Flow.step, ← hrow]
        simp only [hdash', Bool.false_eq_true, if_false]
  | table =>
      obtain ⟨row', hrow, hlookup⟩ := hkeep fun f hf hsel => by
        have halike := halike f hf
        simpa [hsel] using halike
      exact ⟨row', hrow, hlookup⟩
  | rename =>
      refine ⟨(Flow.clauses tokens).foldl Flow.moveColumns row,
        by simp [preserveSegment, hstrip, Flow.step, htokens], ?_⟩
      intro f hf
      refine lookup_renames ?_ row
      have halike := halike f hf
      have hwords : ((renamedWords args).any fun p => Glob.fnmatch p f) = false := hunseen f hf
      simp only [hwords, Bool.or_false] at halike
      simpa using halike
  | eval =>
      refine ⟨(Flow.assignments [] 0 tokens).foldl (Flow.evalColumn value) row,
        by simp [preserveSegment, hstrip, Flow.step, htokens], ?_⟩
      intro f hf
      exact lookup_evals (evals_miss_source htokens (heval rfl) hf (hunseen f hf)) row
  | search => exact ⟨row, by simp [preserveSegment, hstrip, Flow.step, htokens], fun _ _ => rfl⟩
  | «where» => exact ⟨row, by simp [preserveSegment, hstrip, Flow.step, htokens], fun _ _ => rfl⟩
  | stats => exact ⟨row, by simp [preserveSegment, hstrip, Flow.step, htokens], fun _ _ => rfl⟩
  | timechart => exact ⟨row, by simp [preserveSegment, hstrip, Flow.step, htokens], fun _ _ => rfl⟩
  | sort => exact ⟨row, by simp [preserveSegment, hstrip, Flow.step, htokens], fun _ _ => rfl⟩
  | head => exact ⟨row, by simp [preserveSegment, hstrip, Flow.step, htokens], fun _ _ => rfl⟩
  | dedup => exact ⟨row, by simp [preserveSegment, hstrip, Flow.step, htokens], fun _ _ => rfl⟩
  | regex => exact ⟨row, by simp [preserveSegment, hstrip, Flow.step, htokens], fun _ _ => rfl⟩

/-! ### The whole pipeline -/

theorem preserveSegment_command (s : Segment) : (preserveSegment s).1.1 = s.1 := by
  obtain ⟨command, args⟩ := s
  cases command <;> simp only [preserveSegment]
  split <;> rfl

/-- The arguments are kept as they are, or with the missing fields after them. -/
theorem preserveSegment_args (s : Segment) : (preserveSegment s).1.2 = s.2 ∨
    (preserveSegment s).1.2 = s.2 ++ preserveSegment.missing s.2 := by
  obtain ⟨command, args⟩ := s
  cases command <;> simp only [preserveSegment] <;> (try split) <;> simp

theorem preserveSegments_cons_eq_ok {s : Segment} {segments kept : List Segment}
    (h : preserveSegments (s :: segments) = .ok kept) :
    ∃ rest, modifiesSource (preserveSegment s).2 = false ∧ preserveSegments segments = .ok rest ∧
      kept = (preserveSegment s).1 :: rest := by
  rw [preserveSegments] at h
  split at h
  · simp at h
  · rename_i hmod
    obtain ⟨rest, hrest, rfl⟩ := map_eq_ok.mp h
    exact ⟨rest, by simpa using hmod, hrest, rfl⟩

/-- The normaliser writes no pipe into a segment. -/
theorem preserveSegments_pipes {segments kept : List Segment}
    (h : preserveSegments segments = .ok kept) (hpipe : ∀ s ∈ segments, '|' ∉ s.2) :
    ∀ t ∈ kept, '|' ∉ t.2 := by
  induction segments generalizing kept with
  | nil =>
      simp only [preserveSegments, Except.ok.injEq] at h
      subst h
      simp
  | cons s segments ih =>
      rw [List.forall_mem_cons] at hpipe
      obtain ⟨rest, -, hrest, rfl⟩ := preserveSegments_cons_eq_ok h
      refine List.forall_mem_cons.mpr ⟨?_, ih hrest hpipe.2⟩
      have hmissing : '|' ∉ preserveSegment.missing s.2 := by
        have hfields : ∀ f ∈ sourceFields, '|' ∉ ' ' :: f := by decide
        intro hmem
        obtain ⟨f, hf, hin⟩ := List.mem_flatMap.mp hmem
        exact hfields f (List.mem_filter.mp hf).1 hin
      rcases preserveSegment_args s with heq | heq
      · rw [heq]
        exact hpipe.1
      · rw [heq, List.mem_append]
        exact fun hmem => hmem.elim hpipe.1 hmissing

/-- A pipeline of kept segments leaves provenance alone. -/
theorem run_preserves {V : Type} {value : List Text → Row V → Option V} {segments kept : List Segment}
    {known known' : List Text} (hcheck : checkSegments db known segments = .ok known')
    (htrim : ∀ s ∈ segments, Trimmed s.2) (halike : ∀ s ∈ segments, readAlike s = true)
    (hkept : preserveSegments segments = .ok kept) (row : Row V) :
    ∃ row', Flow.run value (kept.map fun t => (t.1, strip t.2)) row = some row' ∧
      ∀ f ∈ sourceFields, row'.lookup f = row.lookup f := by
  induction segments generalizing known kept row with
  | nil =>
      simp only [preserveSegments, Except.ok.injEq] at hkept
      subst hkept
      exact ⟨row, rfl, fun _ _ => rfl⟩
  | cons s segments ih =>
      rw [List.forall_mem_cons] at htrim halike
      rw [checkSegments] at hcheck
      obtain ⟨middle, hs, hrest⟩ := bind_eq_ok.mp hcheck
      obtain ⟨rest, hmod, hkeptRest, rfl⟩ := preserveSegments_cons_eq_ok hkept
      obtain ⟨row₁, hrow₁, hlookup₁⟩ := step_preserves hs htrim.1 halike.1 hmod row
      obtain ⟨row₂, hrow₂, hlookup₂⟩ := ih hrest htrim.2 halike.2 hkeptRest row₁
      refine ⟨row₂, ?_, fun f hf => by rw [hlookup₂ f hf, hlookup₁ f hf]⟩
      rw [List.map_cons, Flow.run, hrow₁, Option.bind_some, hrow₂]

/-- **Raw provenance.** Simulating the normalised text of an allowed raw query on any
event leaves `index`, `sourcetype`, `_time` and `_cd` as they were, where the normaliser
reads the arguments of every segment as they are read here. -/
theorem provenance_preserved {digest : CacheDigest} {policy : SPLPolicy} {proposal : QueryProposal}
    {open_question_ids : Option (List Text)} {result : QueryValidationResult} {parsed : ParsedSPL}
    (hresult : policy.validate db digest proposal open_question_ids = .ok result)
    (hallowed : result.allowed = true) (hparsed : parse_spl db proposal.spl = .ok parsed)
    (hraw : parsed.aggregates_events = false)
    (halike : ∀ s ∈ parsed.command_segments, readAlike s = true)
    {V : Type} (value : List Text → Row V → Option V) (row : Row V) :
    ∃ row', Flow.simulate value db result.normalized_spl row = some row' ∧
      ∀ f ∈ sourceFields, row'.lookup f = row.lookup f := by
  obtain ⟨parsed', hparsed', hpreserved, hfields⟩ := SPLPolicy.validate_parsed hresult hallowed
  obtain rfl : parsed' = parsed := by rw [hparsed] at hparsed'; simpa using hparsed'.symm
  rw [preserve_raw_source_fields, hraw, if_neg (by decide)] at hpreserved
  obtain ⟨kept, hkept, hnormalized⟩ := map_eq_ok.mp hpreserved
  obtain ⟨known', hcheck, -⟩ := bind_eq_ok.mp hfields
  have hmem : ∀ s ∈ parsed'.command_segments, '|' ∉ s.2 ∧ Trimmed s.2 :=
    fun s hs => mem_command_segments hparsed hs
  obtain ⟨row', hrow, hlookup⟩ :=
    run_preserves hcheck (fun s hs => (hmem s hs).2) halike hkept row
  obtain ⟨first, others, hsegments, hsearch⟩ := command_segments_eq_cons hparsed
  have hpipes := preserveSegments_pipes hkept fun s hs => (hmem s hs).1
  rw [hsegments] at hkept
  obtain ⟨rest, -, -, rfl⟩ := preserveSegments_cons_eq_ok hkept
  refine ⟨row', ?_, hlookup⟩
  have hfirst : (preserveSegment first).1.1 = .search := by
    rw [preserveSegment_command, hsearch]
  rw [Flow.simulate, ← hnormalized, parseSegments_render hfirst hpipes]
  exact hrow

/-- An event with one value in every column the examples name. -/
def sampleRow : Row Nat :=
  ["index", "sourcetype", "_time", "_cd", "host"].zipIdx.map fun c => (c.1.toList, c.2)

theorem provenance_preserved_rename :
    ∃ (result : QueryValidationResult) (row' : Row Nat),
      Flow.simulate (fun _ _ => none) foldedLetters result.normalized_spl sampleRow = some row' ∧
      ∀ f ∈ sourceFields, row'.lookup f = sampleRow.lookup f := by
  have hallowed : (singleSourcePolicy []).Allows foldedLetters CacheMaterial.normalized_spl
      (singleSourceProposal "search index=main sourcetype=a | rename host as h | table h") none := by
    decide
  obtain ⟨result, hresult, hallowed⟩ := hallowed
  have hparsed : parse_spl foldedLetters
      (singleSourceProposal "search index=main sourcetype=a | rename host as h | table h").spl =
      .ok ⟨"search index=main sourcetype=a | rename host as h | table h".toList,
        [(.search, "index=main sourcetype=a".toList), (.rename, "host as h".toList),
          (.table, "h".toList)]⟩ := by
    decide
  obtain ⟨row', hrow, hlookup⟩ := provenance_preserved hresult hallowed hparsed (by decide)
    (by decide) (fun _ _ => none) sampleRow
  exact ⟨result, row', hrow, hlookup⟩

/-- A clause glued to the one before it by a comma escapes the normaliser: the query is
allowed, and `_time` is renamed away. -/
theorem glued_rename_loses_time :
    ∃ (db : UnicodeData) (policy : SPLPolicy) (proposal : QueryProposal)
      (result : QueryValidationResult) (parsed : ParsedSPL) (row' : Row Nat),
      policy.validate db CacheMaterial.normalized_spl proposal none = .ok result ∧
      result.allowed = true ∧ parse_spl db proposal.spl = .ok parsed ∧
      parsed.aggregates_events = false ∧
      Flow.simulate (fun _ _ => none) db result.normalized_spl sampleRow = some row' ∧
      sampleRow.lookup "_time".toList = some 2 ∧ row'.lookup "_time".toList = none := by
  have hquery : ((singleSourcePolicy []).validate foldedLetters CacheMaterial.normalized_spl
      (singleSourceProposal "search index=main sourcetype=a | rename host as h,_time as t")
      none).toOption.any (fun result => result.allowed &&
        (Flow.simulate (fun _ _ => none) foldedLetters result.normalized_spl sampleRow).any
          fun row' => (row'.lookup "_time".toList).isNone) = true := by
    decide +kernel
  have hparsed : parse_spl foldedLetters
      (singleSourceProposal "search index=main sourcetype=a | rename host as h,_time as t").spl =
      .ok ⟨"search index=main sourcetype=a | rename host as h,_time as t".toList,
        [(.search, "index=main sourcetype=a".toList), (.rename, "host as h,_time as t".toList)]⟩ := by
    decide
  obtain ⟨result, hresult, hquery⟩ := (Option.any_eq_true ..).mp hquery
  rw [Bool.and_eq_true] at hquery
  obtain ⟨row', hrow, hnone⟩ := (Option.any_eq_true ..).mp hquery.2
  have hvalidate := toOption_eq_some.mp hresult
  exact ⟨foldedLetters, _, _, result, _, row', hvalidate, hquery.1, hparsed, by decide, hrow,
    by decide, by simpa using hnone⟩

end ThreatHunting.Spl
