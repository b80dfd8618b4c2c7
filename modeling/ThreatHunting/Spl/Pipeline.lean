import ThreatHunting.Spl.Lexer
import ThreatHunting.Lib.Glob
import ThreatHunting.Lib.Fallible

/-!
# ThreatHunting.Spl.Pipeline

`parse_spl` and the raw-source normaliser of `domain/spl_policy.py`: a search
text is cut at its pipes into commands with arguments, and projections of raw
pipelines are extended so that they keep the native provenance fields.
-/

namespace ThreatHunting.Spl

/-- What the policy code may raise: a `ValueError` with its message, or the
`StopIteration` of an exhausted `next`. Only the former is caught. -/
inductive Raised
  | valueError (message : String)
  | stopIteration
  deriving DecidableEq, Repr

/-- `_ALLOWED_COMMANDS`. -/
inductive Command
  | search | «where» | fields | table | stats | timechart | sort | head | dedup | rename | eval | regex
  deriving DecidableEq, Repr

namespace Command

def name : Command → Text
  | search => "search".toList
  | «where» => "where".toList
  | fields => "fields".toList
  | table => "table".toList
  | stats => "stats".toList
  | timechart => "timechart".toList
  | sort => "sort".toList
  | head => "head".toList
  | dedup => "dedup".toList
  | rename => "rename".toList
  | eval => "eval".toList
  | regex => "regex".toList

def all : List Command :=
  [search, «where», fields, table, stats, timechart, sort, head, dedup, rename, eval, regex]

/-- The allowed command with this (folded) name. -/
def ofName? (word : Text) : Option Command := all.find? fun c => c.name == word

/-- The event-reducing commands of the supported subset. -/
def aggregates : Command → Bool
  | stats | timechart => true
  | _ => false

end Command

/-- A command with its arguments. -/
abbrev Segment := Command × Text

/-- `f"{command} {args}".rstrip()`. -/
def Segment.text (s : Segment) : Text := rstrip (s.1.name ++ ' ' :: s.2)

/-- Commands and arguments back to text, as `" | ".join` writes them. -/
def renderPipeline (segments : List Segment) : Text := join " | " (segments.map Segment.text)

/-- `ParsedSPL`: the normalised text and its command segments. -/
structure ParsedSPL where
  normalized : Text
  command_segments : List Segment
  deriving DecidableEq

/-- `ParsedSPL.aggregates_events`. -/
def ParsedSPL.aggregates_events (p : ParsedSPL) : Bool :=
  p.command_segments.any fun s => s.1.aggregates

/-- `command_segments[0][1]`: the arguments of the leading search. -/
def ParsedSPL.search_expression (p : ParsedSPL) : Text :=
  (p.command_segments.head?.map Prod.snd).getD []

variable (db : UnicodeData)

/-- One part of the split text as a command. The first part may be an implicit
search: a group, or any text with an equality that does not name `search`. -/
def parseSegment (first : Bool) (part : Text) : Except Raised Segment :=
  if first && part.head? == some '(' then .ok (.search, part)
  else match commandWord db part with
    | none => .error (.valueError "SPL command is malformed")
    | some (word, args) =>
        if first && casefold word != "search".toList then
          if '=' ∈ part then .ok (.search, part)
          else .error (.valueError "SPL must begin with search")
        else match Command.ofName? (casefold word) with
          | some c => .ok (c, strip args)
          | none =>
              .error (.valueError ("SPL command is not allowed: " ++ String.ofList (casefold word)))

/-- The parts of a text between its pipes, stripped. -/
def pipelineParts (value : Text) : List Text := (value.splitOn '|').map strip

/-- The command segments of the parts of a pipeline. -/
def parseSegments : List Text → Except Raised (List Segment)
  | [] => .ok []
  | part :: parts => do
      let segment ← parseSegment db true part
      let rest ← parts.mapM (parseSegment db false)
      return segment :: rest

/-- `parse_spl`. -/
def parse_spl (value : Text) : Except Raised ParsedSPL :=
  if (strip value).isEmpty then .error (.valueError "SPL must be non-empty")
  else if value.length > 20000 || '`' ∈ value || '[' ∈ value || ']' ∈ value || '\x00' ∈ value then
    .error (.valueError "SPL contains unsupported syntax")
  else if (pipelineParts value).any List.isEmpty then
    .error (.valueError "SPL contains an empty command")
  else (parseSegments db (pipelineParts value)).map fun segments =>
    { normalized := renderPipeline segments, command_segments := segments }

section Parse

variable {db}

theorem not_mem_of_mem_splitOn {sep : Char} {value : Text} :
    ∀ part ∈ value.splitOn sep, sep ∉ part := by
  induction value with
  | nil => simp
  | cons c value ih =>
      rw [List.splitOn_cons_eq_if_modifyHead]
      split
      · simpa using ih
      · rename_i hc
        have hne : sep ≠ c := fun h => hc (by simp [h])
        cases hs : value.splitOn sep with
        | nil => simp
        | cons first rest =>
            rw [hs, List.forall_mem_cons] at ih
            simpa [hne, ih.1] using ih.2

theorem mem_of_mem_strip {c : Char} {value : Text} (h : c ∈ strip value) : c ∈ value :=
  (List.dropWhile_sublist _).mem ((List.rdropWhile_prefix _ _).subset h)

theorem mem_of_mem_commandWord {part word args : Text} (h : commandWord db part = some (word, args))
    {c : Char} (hc : c ∈ args) : c ∈ part := by
  rw [commandWord] at h
  split at h
  · rename_i d cs hd
    split at h
    · simp only [Option.some.injEq, Prod.mk.injEq] at h
      rw [← h.2] at hc
      have hcs : c ∈ skipSpaces part := by
        rw [hd]
        exact List.mem_cons_of_mem _ ((List.dropWhile_sublist _).mem hc)
      exact (List.dropWhile_sublist _).mem hcs
    · simp at h
  · simp at h

/-- The two ways a part becomes a segment: as an implicit search, or as a named command. -/
theorem parseSegment_cases {first : Bool} {part : Text} {segment : Segment}
    (h : parseSegment db first part = .ok segment) :
    (first = true ∧ segment = (.search, part)) ∨
      ∃ word args c, commandWord db part = some (word, args) ∧
        (first = true → casefold word = "search".toList) ∧
        Command.ofName? (casefold word) = some c ∧ segment = (c, strip args) := by
  rw [parseSegment] at h
  split at h
  · rename_i hfirst
    simp only [Except.ok.injEq] at h
    exact .inl ⟨by simp_all, h.symm⟩
  · split at h
    · simp at h
    · rename_i word args hword
      split at h
      · rename_i hfirst
        split at h
        · simp only [Except.ok.injEq] at h
          exact .inl ⟨by simp_all, h.symm⟩
        · simp at h
      · rename_i hnamed
        split at h
        · rename_i c hc
          simp only [Except.ok.injEq] at h
          exact .inr ⟨word, args, c, hword, by simpa using hnamed, hc, h.symm⟩
        · simp at h

/-- A segment's arguments are taken from its part of the text. -/
theorem mem_of_mem_parseSegment {first : Bool} {part : Text} {segment : Segment}
    (h : parseSegment db first part = .ok segment) {c : Char} (hc : c ∈ segment.2) : c ∈ part := by
  rcases parseSegment_cases h with ⟨-, rfl⟩ | ⟨word, args, cmd, hword, -, -, rfl⟩
  · exact hc
  · exact mem_of_mem_commandWord hword (mem_of_mem_strip hc)

/-- A pipeline begins with a search. -/
theorem parseSegment_first {part : Text} {segment : Segment}
    (h : parseSegment db true part = .ok segment) : segment.1 = .search := by
  rcases parseSegment_cases h with ⟨-, rfl⟩ | ⟨word, args, c, -, hsearch, hc, rfl⟩
  · rfl
  · rw [hsearch rfl] at hc
    have hname : Command.ofName? "search".toList = some .search := by decide
    rw [hname] at hc
    exact (Option.some.inj hc).symm

theorem trimmed_parseSegment {first : Bool} {part : Text} {segment : Segment}
    (hpart : Trimmed part) (h : parseSegment db first part = .ok segment) : Trimmed segment.2 := by
  rcases parseSegment_cases h with ⟨-, rfl⟩ | ⟨word, args, c, -, -, -, rfl⟩
  · exact hpart
  · exact trimmed_strip args

theorem parse_spl_eq_ok {value : Text} {parsed : ParsedSPL} (h : parse_spl db value = .ok parsed) :
    parseSegments db (pipelineParts value) = .ok parsed.command_segments ∧
      parsed.normalized = renderPipeline parsed.command_segments ∧ value.length ≤ 20000 ∧
      ∀ c ∈ ['`', '[', ']', '\x00'], c ∉ value := by
  rw [parse_spl] at h
  split at h
  · simp at h
  · split at h
    · simp at h
    · rename_i hsyntax
      split at h
      · simp at h
      · obtain ⟨segments, hsegments, hparsed⟩ := Fallible.map_eq_ok.mp h
        subst hparsed
        simp only [Bool.or_eq_true, decide_eq_true_eq, not_or, Nat.not_lt] at hsyntax
        obtain ⟨⟨⟨⟨hlen, h₁⟩, h₂⟩, h₃⟩, h₄⟩ := hsyntax
        exact ⟨hsegments, rfl, hlen, by simp [h₁, h₂, h₃, h₄]⟩

theorem parseSegments_eq_ok {parts : List Text} {segments : List Segment}
    (h : parseSegments db parts = .ok segments) (hne : parts ≠ []) :
    ∃ part rest segment others, parts = part :: rest ∧ segments = segment :: others ∧
      parseSegment db true part = .ok segment ∧
      rest.mapM (parseSegment db false) = .ok others := by
  cases parts with
  | nil => exact absurd rfl hne
  | cons part rest =>
      rw [parseSegments] at h
      obtain ⟨segment, hsegment, h₁⟩ := Fallible.bind_eq_ok.mp h
      obtain ⟨others, hothers, h₂⟩ := Fallible.bind_eq_ok.mp h₁
      simp only [pure, Except.pure, Except.ok.injEq] at h₂
      exact ⟨part, rest, segment, others, rfl, h₂.symm, hsegment, hothers⟩

/-- What a later part of a pipeline becomes. -/
theorem exists_part_of_mem {parts : List Text} {segments : List Segment}
    (h : parts.mapM (parseSegment db false) = .ok segments) {segment : Segment}
    (hs : segment ∈ segments) : ∃ part ∈ parts, parseSegment db false part = .ok segment := by
  induction parts generalizing segments with
  | nil =>
      rw [List.mapM_nil] at h
      obtain rfl : segments = [] := by simpa [pure, Except.pure] using h.symm
      simp at hs
  | cons part parts ih =>
      rw [List.mapM_cons] at h
      obtain ⟨first, hfirst, h₁⟩ := Fallible.bind_eq_ok.mp h
      obtain ⟨rest, hrest, h₂⟩ := Fallible.bind_eq_ok.mp h₁
      obtain rfl : segments = first :: rest := by simpa [pure, Except.pure] using h₂.symm
      rcases List.mem_cons.mp hs with rfl | hs
      · exact ⟨part, List.mem_cons_self, hfirst⟩
      · obtain ⟨p, hp, heq⟩ := ih hrest hs
        exact ⟨p, List.mem_cons_of_mem _ hp, heq⟩

/-- Every segment comes from a part of the text, cut at its pipes and stripped. -/
theorem mem_command_segments {value : Text} {parsed : ParsedSPL}
    (h : parse_spl db value = .ok parsed) {segment : Segment}
    (hs : segment ∈ parsed.command_segments) : '|' ∉ segment.2 ∧ Trimmed segment.2 := by
  have hne : pipelineParts value ≠ [] := by simp [pipelineParts]
  obtain ⟨part, rest, first, others, hparts, hsegments, hfirst, hothers⟩ :=
    parseSegments_eq_ok (parse_spl_eq_ok h).1 hne
  have hpart : ∃ p ∈ pipelineParts value, ∃ b, parseSegment db b p = .ok segment := by
    rw [hsegments] at hs
    rw [hparts]
    rcases List.mem_cons.mp hs with rfl | hs
    · exact ⟨part, List.mem_cons_self, true, hfirst⟩
    · obtain ⟨p, hp, heq⟩ := exists_part_of_mem hothers hs
      exact ⟨p, List.mem_cons_of_mem _ hp, false, heq⟩
  obtain ⟨p, hp, b, heq⟩ := hpart
  obtain ⟨raw, hraw, rfl⟩ := List.mem_map.mp hp
  exact ⟨fun hmem => not_mem_of_mem_splitOn raw hraw
    (mem_of_mem_strip (mem_of_mem_parseSegment heq hmem)),
    trimmed_parseSegment (trimmed_strip raw) heq⟩

/-- The leading search of a parsed text. -/
theorem command_segments_eq_cons {value : Text} {parsed : ParsedSPL}
    (h : parse_spl db value = .ok parsed) :
    ∃ first others, parsed.command_segments = first :: others ∧ first.1 = .search := by
  have hne : pipelineParts value ≠ [] := by simp [pipelineParts]
  obtain ⟨_, _, first, others, -, hsegments, hfirst, -⟩ :=
    parseSegments_eq_ok (parse_spl_eq_ok h).1 hne
  exact ⟨first, others, hsegments, parseSegment_first hfirst⟩

/-- The search expression contains no pipe: the text was cut at its pipes. -/
theorem not_mem_search_expression {value : Text} {parsed : ParsedSPL}
    (h : parse_spl db value = .ok parsed) : '|' ∉ parsed.search_expression := by
  obtain ⟨first, others, hsegments, -⟩ := command_segments_eq_cons h
  rw [ParsedSPL.search_expression, hsegments]
  exact (mem_command_segments h (by rw [hsegments]; exact List.mem_cons_self)).1

end Parse

/-! ### Raw provenance -/

/-- `_SOURCE_FIELDS`. -/
def sourceFields : List Text := ["index".toList, "sourcetype".toList, "_time".toList, "_cd".toList]

/-- `"\"'"`, the quotes the normaliser strips. -/
def quoteChars : List Char := ['"', '\'']

/-- `re.findall(r"[^\s,]+", args)`. -/
def argumentWords (args : Text) : List Text := runs (fun c => isSpace c || c == ',') args

/-- The fields a `fields -` segment names, as the normaliser reads them. -/
def removedWords (args : Text) : List Text :=
  ((argumentWords args).filter (· != ['-'])).map fun w => stripChars quoteChars (lstripChars ['-'] w)

/-- The fields a projection selects, as the normaliser reads them. -/
def selectedWords (args : Text) : List Text := (argumentWords args).map (stripChars quoteChars)

/-- The names an `eval` segment assigns, as the normaliser reads them. -/
def assignedWords (args : Text) : List Text := Scan.findAll assignedName args

/-- The names a `rename` segment reads and writes, as the normaliser reads them. -/
def renamedWords (args : Text) : List Text :=
  (asPairs (runs isSpace args)).flatMap fun (a, b) =>
    [stripChars quoteChars a, stripChars quoteChars b]

/-- A segment as the normaliser keeps it, with the patterns it takes to be modified. -/
def preserveSegment : Segment → Segment × List Text
  | (command, args) =>
      match command with
      | .fields =>
          if args.head? == some '-' then ((command, args), removedWords args)
          else ((command, args ++ missing args), [])
      | .table => ((command, args ++ missing args), [])
      | .eval => ((command, args), assignedWords args)
      | .rename => ((command, args), renamedWords args)
      | _ => ((command, args), [])
where
  missing (args : Text) : Text :=
    (sourceFields.filter (· ∉ selectedWords args)).flatMap (' ' :: ·)

/-- Does one of the patterns match a provenance field? -/
def modifiesSource (modified : List Text) : Bool :=
  sourceFields.any fun field => modified.any fun pattern => Glob.fnmatch pattern field

/-- The segments after the normaliser, which rejects those that would lose provenance. -/
def preserveSegments : List Segment → Except Raised (List Segment)
  | [] => .ok []
  | segment :: rest =>
      if modifiesSource (preserveSegment segment).2 then
        .error (.valueError "source_metadata_modified")
      else (preserveSegments rest).map ((preserveSegment segment).1 :: ·)

/-- `_preserve_raw_source_fields`. -/
def preserve_raw_source_fields (parsed : ParsedSPL) : Except Raised Text :=
  if parsed.aggregates_events then .ok parsed.normalized
  else (preserveSegments parsed.command_segments).map renderPipeline

end ThreatHunting.Spl
