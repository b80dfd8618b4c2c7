import ThreatHunting.Text
import ThreatHunting.Lib.Scan

/-!
# ThreatHunting.Spl.Lexer

The regular expressions of the SPL policy, one reader each. A reader is given the
text from the place where the match is tried and returns what it matched together
with what follows. Every pattern here is deterministic — wherever Python's engine
could backtrack, the shorter attempt fails too — so reading greedily from left to
right finds the match `re` finds.
-/

namespace ThreatHunting.Spl

open Scan

variable (db : UnicodeData)

/-- `\b` after a word character: the next character, if any, is not `\w`. -/
def atWordEnd : Text → Bool
  | [] => true
  | c :: _ => !db.isWord c

/-- `\b` before a word character: the previous character, if any, is not `\w`. -/
def atWordStart : Option Char → Bool
  | none => true
  | some c => !db.isWord c

/-! ### Source scope -/

/-- `(?P<field>index|sourcetype)`, ignoring case; the field as written. -/
def scopeFieldName (cs : Text) : Option (Text × Text) :=
  (takeKeyword "index".toList cs).or (takeKeyword "sourcetype".toList cs)

/-- `_SCOPE_FIELD`, tried after `prev`: a scope field not inside a longer name. -/
def scopeField (prev : Option Char) (cs : Text) : Option (Text × Text) :=
  if prev.any isWordIgnoreCase then none
  else (scopeFieldName cs).filter fun m => atWordEnd db m.2

/-- `[A-Za-z0-9_.:-]`, ignoring case: the characters of an exact scope value. -/
def isScopeValueChar (c : Char) : Bool :=
  isWordIgnoreCase c || c == '.' || c == ':' || c == '-'

/-- A scope predicate: the field as written, and the value it selects. -/
structure ScopePredicate where
  field : Text
  selected : Text
  deriving DecidableEq, Repr

/-- The value of a scope predicate, quoted or bare; the value and what follows it. -/
def scopeValue : Text → Option (Text × Text)
  | [] => none
  | c :: cs =>
      if c == '"' || c == '\'' then
        match cs.takeWhile isScopeValueChar, cs.dropWhile isScopeValueChar with
        | [], _ => none
        | _, [] => none
        | v :: vs, d :: rest => if d == c then some (v :: vs, rest) else none
      else
        match (c :: cs).takeWhile isScopeValueChar with
        | [] => none
        | v :: vs => some (v :: vs, (c :: cs).dropWhile isScopeValueChar)

/-- `(?=$|[\s|)])`. -/
def endsScopeValue : Text → Bool
  | [] => true
  | c :: _ => isSpace c || c == '|' || c == ')'

/-- `_SCOPE_PREDICATE` at the front of `cs`; the predicate and what follows it. -/
def scopePredicate (cs : Text) : Option (ScopePredicate × Text) :=
  match scopeFieldName cs with
  | none => none
  | some (field, rest) =>
      match skipSpaces rest with
      | '=' :: rest =>
          match scopeValue (skipSpaces rest) with
          | some (selected, rest) =>
              if endsScopeValue rest then some (⟨field, selected⟩, rest) else none
          | none => none
      | _ => none

/-- `_SCOPE_PREDICATE.fullmatch`. -/
def scopePredicateFull (token : Text) : Option ScopePredicate :=
  match scopePredicate token with
  | some (p, []) => some p
  | _ => none

/-- `\s*(?:\(\s*)*`: whitespace and opening parentheses. -/
def skipOpenings (cs : Text) : Text := cs.dropWhile fun c => isSpace c || c == '('

/-- `_NEGATED_SCOPE`, tried after `prev`: the field that is negated, as written. -/
def negatedScope (prev : Option Char) (cs : Text) : Option Text :=
  let afterNot :=
    if atWordStart db prev then (takeKeyword "not".toList cs).map fun m => skipOpenings m.2 else none
  let afterDash :=
    match cs with
    | '-' :: rest => if prev.any isWordIgnoreCase then none else some (skipSpaces rest)
    | _ => none
  (afterNot <|> afterDash).bind fun rest =>
    (scopeFieldName rest).bind fun m => if atWordEnd db m.2 then some m.1 else none

/-- `_INLINE_TIME`, tried after `prev`. The pattern itself starts at the first
character or consumes one whitespace character. -/
def inlineTime (prev : Option Char) (cs : Text) : Option Unit :=
  let bound (cs : Text) : Option Unit :=
    (takeKeyword "earliest".toList cs <|> takeKeyword "latest".toList cs).bind fun m =>
      match skipSpaces m.2 with
      | '=' :: _ => some ()
      | _ => none
  let atStart := if prev.isNone then bound cs else none
  let afterSpace :=
    match cs with
    | c :: rest => if isSpace c then bound rest else none
    | [] => none
  atStart <|> afterSpace

/-! ### Quoted literals -/

/-- `(?:\\.|[^q\\])*q`: the rest of a literal opened by `q`, up to its closing
quote. `.` does not match a newline. -/
def quotedTail (q : Char) : Text → Option (Text × Text)
  | [] => none
  | [c] => if c == q then some ([c], []) else none
  | c :: d :: cs =>
      if c == q then some ([c], d :: cs)
      else if c == '\\' then
        if d == '\n' then none
        else (quotedTail q cs).map fun (m, rest) => (c :: d :: m, rest)
      else (quotedTail q (d :: cs)).map fun (m, rest) => (c :: m, rest)

/-- `_QUOTED_TOKEN`. -/
def quotedToken : Text → Option (Text × Text)
  | c :: cs =>
      if c == '"' || c == '\'' then (quotedTail c cs).map fun (m, rest) => (c :: m, rest) else none
  | [] => none

theorem quotedTail_eq_some {q : Char} {cs t after : Text} (h : quotedTail q cs = some (t, after)) :
    cs = t ++ after ∧ t ≠ [] := by
  fun_induction quotedTail q cs generalizing t after with
  | case1 => simp at h
  | case2 c hc =>
      simp only [Option.some.injEq, Prod.mk.injEq] at h
      simp [← h.1, ← h.2]
  | case3 => simp at h
  | case4 c d cs hc =>
      simp only [Option.some.injEq, Prod.mk.injEq] at h
      simp [← h.1, ← h.2]
  | case5 => simp at h
  | case6 c d cs hc hb hd ih =>
      obtain ⟨⟨t', after'⟩, ht, heq⟩ := Option.map_eq_some_iff.mp h
      simp only [Prod.mk.injEq] at heq
      simp [← heq.1, ← heq.2, (ih ht).1]
  | case7 c d cs hc hb ih =>
      obtain ⟨⟨t', after'⟩, ht, heq⟩ := Option.map_eq_some_iff.mp h
      simp only [Prod.mk.injEq] at heq
      simp [← heq.1, ← heq.2, (ih ht).1]

/-- What follows a literal does not change it. -/
theorem quotedTail_append {q : Char} {cs t after : Text} (h : quotedTail q cs = some (t, after))
    (tail : Text) : quotedTail q (cs ++ tail) = some (t, after ++ tail) := by
  fun_induction quotedTail q cs generalizing t after with
  | case1 => simp at h
  | case2 c hc =>
      simp only [Option.some.injEq, Prod.mk.injEq] at h
      obtain ⟨rfl, rfl⟩ := h
      cases tail with
      | nil => simp [quotedTail, hc]
      | cons d tail => simp [quotedTail, hc]
  | case3 => simp at h
  | case4 c d cs hc =>
      simp only [Option.some.injEq, Prod.mk.injEq] at h
      obtain ⟨rfl, rfl⟩ := h
      rw [List.cons_append, List.cons_append, quotedTail, if_pos hc]
  | case5 => simp at h
  | case6 c d cs hc hb hd ih =>
      obtain ⟨⟨t', after'⟩, ht, heq⟩ := Option.map_eq_some_iff.mp h
      simp only [Prod.mk.injEq] at heq
      obtain ⟨rfl, rfl⟩ := heq
      rw [List.cons_append, List.cons_append, quotedTail, if_neg hc, if_pos hb, if_neg hd, ih ht]
      rfl
  | case7 c d cs hc hb ih =>
      obtain ⟨⟨t', after'⟩, ht, heq⟩ := Option.map_eq_some_iff.mp h
      simp only [Prod.mk.injEq] at heq
      obtain ⟨rfl, rfl⟩ := heq
      have ih := ih ht
      rw [List.cons_append] at ih
      rw [List.cons_append, List.cons_append, quotedTail, if_neg hc, if_neg hb, ih]
      rfl

theorem quotedToken_eq_some {cs t rest : Text} (h : quotedToken cs = some (t, rest)) :
    cs = t ++ rest ∧ t ≠ [] := by
  cases cs with
  | nil => simp [quotedToken] at h
  | cons c cs =>
      rw [quotedToken] at h
      split at h
      · obtain ⟨⟨t', rest'⟩, ht, heq⟩ := Option.map_eq_some_iff.mp h
        simp only [Prod.mk.injEq] at heq
        simp [← heq.1, ← heq.2, (quotedTail_eq_some ht).1]
      · simp at h

theorem quotedToken_append {cs t rest : Text} (h : quotedToken cs = some (t, rest)) (tail : Text) :
    quotedToken (cs ++ tail) = some (t, rest ++ tail) := by
  cases cs with
  | nil => simp [quotedToken] at h
  | cons c cs =>
      rw [quotedToken] at h
      split at h
      · rename_i hq
        obtain ⟨⟨t', rest'⟩, ht, heq⟩ := Option.map_eq_some_iff.mp h
        simp only [Prod.mk.injEq] at heq
        obtain ⟨rfl, rfl⟩ := heq
        rw [List.cons_append, quotedToken, if_pos hq, quotedTail_append ht]
        rfl
      · simp at h

/-! ### Tokens of a search expression -/

/-- `[^\s()"']`. -/
def isSearchChar (c : Char) : Bool :=
  !(isSpace c || c == '(' || c == ')' || c == '"' || c == '\'')

/-- `(?:[^\s()"']+|"…"|'…')*`, at most `fuel` characters and literals long. -/
def searchUnits : Nat → Text → Text × Text
  | 0, cs => ([], cs)
  | _, [] => ([], [])
  | fuel + 1, c :: cs =>
      if isSearchChar c then
        let (m, rest) := searchUnits fuel cs
        (c :: m, rest)
      else match quotedToken (c :: cs) with
        | none => ([], c :: cs)
        | some (lit, after) =>
            let (m, rest) := searchUnits fuel after
            (lit ++ m, rest)

/-- `_SEARCH_TOKEN`. -/
def searchToken : Text → Option (Text × Text)
  | [] => none
  | c :: cs =>
      if c == '(' || c == ')' then some ([c], cs)
      else match searchUnits (c :: cs).length (c :: cs) with
        | ([], _) => none
        | (m, rest) => some (m, rest)

/-- One token of `_source_branches`: a scope predicate where there is one, else a
search token. -/
def sourceToken (cs : Text) : Option (Text × Text) :=
  match scopePredicate cs with
  | some (_, rest) => some (cs.take (cs.length - rest.length), rest)
  | none => searchToken cs

/-! ### Tokens of command arguments -/

/-- `[^\s(),=<>!"']`. -/
def isFieldChar (c : Char) : Bool :=
  !(isSpace c || c ∈ ['(', ')', ',', '=', '<', '>', '!', '"', '\''])

/-- The operators of command arguments, in the order they are tried. -/
def operators : List Text :=
  ["<=", ">=", "!=", "<>", "(", ")", ",", "=", "<", ">", "!"].map String.toList

/-- `<=|>=|!=|<>|[(),=<>!]`. -/
def operatorToken (cs : Text) : Option (Text × Text) :=
  operators.findSome? fun op => if op.isPrefixOf cs then some (op, cs.drop op.length) else none

/-- `[^\s(),=<>!"']+`. -/
def fieldWord (cs : Text) : Option (Text × Text) :=
  if (cs.takeWhile isFieldChar).isEmpty then none
  else some (cs.takeWhile isFieldChar, cs.dropWhile isFieldChar)

/-- `_FIELD_TOKEN`. -/
def fieldToken (cs : Text) : Option (Text × Text) :=
  ((quotedToken cs).or (operatorToken cs)).or (fieldWord cs)

theorem operatorToken_eq_some {cs t rest : Text} (h : operatorToken cs = some (t, rest)) :
    cs = t ++ rest ∧ t ∈ operators := by
  obtain ⟨op, hop, h⟩ := List.exists_of_findSome?_eq_some h
  split at h
  · rename_i hprefix
    simp only [Option.some.injEq, Prod.mk.injEq] at h
    obtain ⟨rfl, rfl⟩ := h
    exact ⟨(List.prefix_iff_eq_append.mp (List.isPrefixOf_iff_prefix.mp hprefix)).symm, hop⟩
  · simp at h

theorem fieldWord_eq_some {cs t rest : Text} (h : fieldWord cs = some (t, rest)) :
    cs = t ++ rest ∧ t ≠ [] ∧ (∀ c ∈ t, isFieldChar c = true) ∧ Stops isFieldChar rest := by
  rw [fieldWord] at h
  split at h
  · simp at h
  · rename_i hne
    simp only [Option.some.injEq, Prod.mk.injEq] at h
    obtain ⟨rfl, rfl⟩ := h
    exact ⟨List.takeWhile_append_dropWhile.symm, by simpa using hne,
      List.all_eq_true.mp List.all_takeWhile, stops_dropWhile⟩

theorem textual_fieldToken : Textual fieldToken := by
  intro cs t rest h
  rcases Option.or_eq_some_iff.mp h with h | ⟨-, h⟩
  · rcases Option.or_eq_some_iff.mp h with h | ⟨-, h⟩
    · exact quotedToken_eq_some h
    · obtain ⟨hcs, hop⟩ := operatorToken_eq_some h
      have hne : ∀ op ∈ operators, op ≠ [] := by decide
      exact ⟨hcs, hne t hop⟩
  · exact ⟨(fieldWord_eq_some h).1, (fieldWord_eq_some h).2.1⟩

theorem prefix_append_iff {op cs tail : Text} {c : Char} (hc : c ∉ op) :
    op <+: cs ++ c :: tail ↔ op <+: cs := by
  constructor
  · intro h
    by_cases hlen : op.length ≤ cs.length
    · exact List.prefix_of_prefix_length_le h (List.prefix_append _ _) hlen
    · obtain ⟨rest, hrest⟩ := h
      obtain ⟨t, ht⟩ := List.prefix_of_prefix_length_le (List.prefix_append cs (c :: tail))
        ⟨rest, hrest⟩ (by omega)
      cases t with
      | nil => simp [← ht] at hlen
      | cons d t =>
          rw [← ht, List.append_assoc, List.append_cancel_left_eq, List.cons_append,
            List.cons.injEq] at hrest
          exact absurd (by rw [← ht, hrest.1]; simp) hc
  · exact fun h => h.trans (List.prefix_append _ _)

/-- A space after an operator does not extend it. -/
theorem operatorToken_append (cs tail : Text) :
    operatorToken (cs ++ ' ' :: tail) =
      (operatorToken cs).map fun m => (m.1, m.2 ++ ' ' :: tail) := by
  rw [operatorToken, operatorToken, List.map_findSome?, ← List.head?_filterMap, ← List.head?_filterMap]
  refine congrArg List.head? (List.filterMap_congr ?_)
  intro op hop
  have hspace : ∀ op ∈ operators, ' ' ∉ op := by decide
  have hiff : op.isPrefixOf (cs ++ ' ' :: tail) = op.isPrefixOf cs := by
    rw [Bool.eq_iff_iff, List.isPrefixOf_iff_prefix, List.isPrefixOf_iff_prefix]
    exact prefix_append_iff (hspace op hop)
  rw [hiff, Function.comp_apply]
  by_cases hprefix : op.isPrefixOf cs = true
  · have hlen := (List.isPrefixOf_iff_prefix.mp hprefix).length_le
    rw [if_pos hprefix, if_pos hprefix, List.drop_append_of_le_length hlen]
    rfl
  · rw [if_neg hprefix, if_neg hprefix]
    rfl

/-- A text that begins no literal but begins some other token begins with no quote. -/
theorem quotedToken_append_eq_none {cs tail : Text} (hcs : cs ≠ [])
    (h : ∀ c ∈ cs.head?, c ≠ '"' ∧ c ≠ '\'') : quotedToken (cs ++ tail) = none := by
  cases cs with
  | nil => exact absurd rfl hcs
  | cons c cs =>
      obtain ⟨h₁, h₂⟩ := h c rfl
      rw [List.cons_append, quotedToken, if_neg (by simp [h₁, h₂])]

/-- A space after a token does not change it. -/
theorem fieldToken_append {cs t rest : Text} (h : fieldToken cs = some (t, rest)) (tail : Text) :
    fieldToken (cs ++ ' ' :: tail) = some (t, rest ++ ' ' :: tail) := by
  rcases Option.or_eq_some_iff.mp h with h | ⟨hno, h⟩
  · rcases Option.or_eq_some_iff.mp h with h | ⟨-, h⟩
    · rw [fieldToken, quotedToken_append h]
      rfl
    · obtain ⟨rfl, hop⟩ := operatorToken_eq_some h
      have hfirst : ∀ op ∈ operators, op ≠ [] ∧ ∀ c ∈ op.head?, c ≠ '"' ∧ c ≠ '\'' := by decide
      obtain ⟨hne, hhead⟩ := hfirst t hop
      have hquoted : quotedToken (t ++ rest ++ ' ' :: tail) = none := by
        rw [List.append_assoc]
        exact quotedToken_append_eq_none hne hhead
      rw [fieldToken, hquoted, operatorToken_append, h]
      rfl
  · obtain ⟨rfl, hne, hchars, hstop⟩ := fieldWord_eq_some h
    have hhead : ∀ c ∈ t.head?, c ≠ '"' ∧ c ≠ '\'' := by
      intro c hc
      have := hchars c (List.mem_of_mem_head? hc)
      constructor <;> rintro rfl <;> exact absurd this (by decide)
    have hquoted : quotedToken (t ++ rest ++ ' ' :: tail) = none := by
      rw [List.append_assoc]
      exact quotedToken_append_eq_none hne hhead
    have hstop' : Stops isFieldChar (rest ++ ' ' :: tail) := by
      cases rest with
      | nil => exact stops_cons.mpr (by decide)
      | cons c rest => exact stops_cons.mpr (stops_cons.mp hstop)
    rw [Option.or_eq_none_iff] at hno
    rw [fieldToken, hquoted, operatorToken_append, hno.2, fieldWord, List.append_assoc,
      takeWhile_append_of_stops hchars hstop', dropWhile_append_of_stops hchars hstop']
    simp [hne]

/-- The tokens of a command's arguments; `none` where something other than
whitespace lies between two tokens. -/
def fieldTokens (args : Text) : Option (List Text) := tokens isSpace fieldToken args

/-- `[A-Za-z_]\w*` at the front. -/
def identifier : Text → Option (Text × Text)
  | c :: cs =>
      if isAsciiLetter c || c == '_' then some (c :: cs.takeWhile db.isWord, cs.dropWhile db.isWord)
      else none
  | [] => none

/-- `re.fullmatch(r"[A-Za-z_]\w*", token)`. -/
def isIdentifier (token : Text) : Bool :=
  match identifier db token with
  | some (_, []) => true
  | _ => false

/-- `\d+` at the front. -/
def digits (cs : Text) : Option (Text × Text) :=
  match cs.takeWhile db.isDecimal with
  | [] => none
  | m => some (m, cs.dropWhile db.isDecimal)

/-- `\d+(?:\.\d+)?(?:[eE][+-]?\d+)?` at the front. -/
def number (cs : Text) : Option (Text × Text) :=
  (digits db cs).map fun (whole, rest) =>
    let (fraction, rest) :=
      match rest with
      | '.' :: tail => match digits db tail with
        | some (m, tail) => ('.' :: m, tail)
        | none => ([], rest)
      | _ => ([], rest)
    let (exponent, rest) :=
      match rest with
      | e :: tail =>
          if e == 'e' || e == 'E' then
            match tail with
            | s :: tail' =>
                if s == '+' || s == '-' then
                  match digits db tail' with
                  | some (m, tail') => (e :: s :: m, tail')
                  | none => ([], rest)
                else match digits db tail with
                  | some (m, tail) => (e :: m, tail)
                  | none => ([], rest)
            | [] => ([], rest)
          else ([], rest)
      | [] => ([], rest)
    (whole ++ fraction ++ exponent, rest)

/-- `_EXPRESSION_TOKEN`. -/
def expressionToken (cs : Text) : Option (Text × Text) :=
  quotedToken cs <|> number db cs <|> identifier db cs <|>
    match cs with
    | c :: rest => if isSpace c then none else some ([c], rest)
    | [] => none

/-- `_EXPRESSION_TOKEN.findall`. Every non-space character begins a token. -/
def expressionTokens (value : Text) : List Text :=
  (tokens isSpace (expressionToken db) value).getD []

/-! ### Words of the normaliser -/

/-- `re.findall(r"(\S+)\s+as\s+(\S+)", …, re.IGNORECASE)` on the words of the text. -/
def asPairs : List Text → List (Text × Text)
  | source :: word :: target :: rest =>
      if (takeKeyword "as".toList word).any (·.2.isEmpty) then (source, target) :: asPairs rest
      else asPairs (word :: target :: rest)
  | _ => []

/-- `[A-Za-z_][A-Za-z0-9_]*` at the front. -/
def plainName : Text → Option (Text × Text)
  | c :: cs =>
      if isAsciiLetter c || c == '_' then
        some (c :: cs.takeWhile isAsciiWord, cs.dropWhile isAsciiWord)
      else none
  | [] => none

/-- `["']?`. -/
def skipQuote : Text → Text
  | c :: cs => if c == '"' || c == '\'' then cs else c :: cs
  | [] => []

/-- `\s*["']?([A-Za-z_][A-Za-z0-9_]*)["']?\s*=`; the name. -/
def assignmentName (cs : Text) : Option Text :=
  (plainName (skipQuote (skipSpaces cs))).bind fun m =>
    match skipSpaces (skipQuote m.2) with
    | '=' :: _ => some m.1
    | _ => none

/-- The same after `(?:^|,)`, tried after `prev`. -/
def assignedName (prev : Option Char) (cs : Text) : Option Text :=
  (if prev.isNone then assignmentName cs else none).or
    (match cs with
    | ',' :: rest => assignmentName rest
    | _ => none)

/-- `_COMMAND`: the command word and the rest of the segment. -/
def commandWord (part : Text) : Option (Text × Text) :=
  match skipSpaces part with
  | c :: cs =>
      if isAsciiLetter c && atWordEnd db (cs.dropWhile isAsciiWord) then
        some (c :: cs.takeWhile isAsciiWord, cs.dropWhile isAsciiWord)
      else none
  | [] => none

end ThreatHunting.Spl
