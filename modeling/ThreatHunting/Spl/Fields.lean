import ThreatHunting.Spl.Pipeline

/-!
# ThreatHunting.Spl.Fields

`_validate_field_references` of `domain/spl_policy.py`: every field a command
reads must be discovered, built in, or produced by an earlier command. The set
`known` of the source is a list of names here; only membership is ever asked.
-/

namespace ThreatHunting.Spl

variable (db : UnicodeData)

/-- `BUILTIN_FIELDS`. -/
def builtinFields : List Text :=
  ["_time", "_raw", "host", "source", "sourcetype", "index"].map String.toList

/-- `ALLOWED_EVAL_FUNCTIONS`. -/
def allowedEvalFunctions : List Text :=
  ["abs", "case", "ceil", "cidrmatch", "coalesce", "cos", "exact", "exp", "false", "floor", "if",
    "in", "isbool", "isint", "isnotnull", "isnull", "isnum", "isstr", "len", "like", "log", "lower",
    "ltrim", "match", "max", "min", "mvappend", "mvcount", "mvdedup", "mvfilter", "mvfind",
    "mvindex", "mvjoin", "mvmap", "mvsort", "mvzip", "now", "null", "nullif", "pow", "replace",
    "round", "rtrim", "sin", "split", "sqrt", "strftime", "strptime", "substr", "tan", "tonumber",
    "tostring", "trim", "true", "upper", "validate"].map String.toList

/-- `ALLOWED_STATS_FUNCTIONS`. -/
def allowedStatsFunctions : List Text :=
  ["avg", "c", "count", "dc", "distinct_count", "earliest", "earliest_time", "estdc",
    "estdc_error", "first", "last", "latest", "latest_time", "list", "max", "mean", "median", "min",
    "mode", "range", "rate", "stdev", "stdevp", "sum", "sumsq", "values", "var", "varp"].map
    String.toList

def fieldError {α : Type} (message : String) : Except Raised α := .error (.valueError message)

def syntaxNotSupported {α : Type} : Except Raised α := fieldError "field_syntax_not_supported"

/-- `re.sub(r'''\\(["'\\])''', r"\1", …)`. -/
def unescapeQuotes : Text → Text
  | '\\' :: c :: cs =>
      if c == '"' || c == '\'' || c == '\\' then c :: unescapeQuotes cs
      else '\\' :: unescapeQuotes (c :: cs)
  | c :: cs => c :: unescapeQuotes cs
  | [] => []

/-- Does a token open with a quote? -/
def isQuoted (token : Text) : Bool := token.head?.any (· ∈ quoteChars)

/-- `field_name`: the name a token stands for. -/
def field_name (token : Text) : Except Raised Text :=
  if isQuoted token then
    if token.length < 2 || token.getLast? != token.head? then syntaxNotSupported
    else .ok (unescapeQuotes token.tail.dropLast)
  else .ok token

/-- `require`: the name must be known, or match a known one where `wildcard`. -/
def requireField (known : List Text) (token : Text) (wildcard : Bool) : Except Raised Unit := do
  let name ← field_name token
  if name ∈ known || (wildcard && known.any (Glob.fnmatch name)) then return ()
  else fieldError "field_not_discovered"

/-! ### Expressions -/

/-- Operators and constants of an expression, which name no field. -/
def expressionKeywords : List Text :=
  ["AND", "OR", "NOT", "XOR", "IN", "LIKE", "TRUE", "FALSE", "NULL"].map String.toList

/-- The loop of `expression`. -/
def checkExpression (known : List Text) (aggregate : Bool) : List Text → Except Raised Unit
  | [] => .ok ()
  | token :: rest => do
      if token.head? == some '\'' then requireField known token false
      else if isIdentifier db token && upper token ∉ expressionKeywords then
        if rest.head? == some ['('] then
          if lower token ∉ allowedEvalFunctions && !(aggregate && lower token == "eval".toList) then
            fieldError "function_not_allowed"
        else requireField known token false
      checkExpression known aggregate rest

/-- `expression`. -/
def expression (known : List Text) (value : Text) (aggregate : Bool) : Except Raised Unit :=
  checkExpression db known aggregate (expressionTokens db value)

/-! ### Wildcard renames -/

/-- The captures of `aliases` for one name: for each `*` in turn, the longest text
that still lets the rest of the pattern match. `next` may be exhausted. -/
def captures (name : Text) : Nat → List Text → Except Raised (List Text)
  | _, [] => .ok []
  | cursor, part :: parts =>
      let suffix := join "*" (part :: parts)
      let ends := (List.range' cursor (name.length + 1 - cursor)).reverse
      match ends.find? fun e => Glob.fnmatch suffix (name.drop e) with
      | none => .error .stopIteration
      | some e => do
          let rest ← captures name (e + part.length) parts
          return (name.take e).drop cursor :: rest

/-- `aliases`: the known names a pattern matches, and what they are renamed to. -/
def aliases (known : List Text) (source target : Text) :
    Except Raised (List Text × List Text) := do
  if source.count '*' != target.count '*' || source.count '*' > 32 then syntaxNotSupported
  let matched := known.filter (Glob.fnmatch source)
  let sourceParts := source.splitOn '*'
  let targetParts := target.splitOn '*'
  let renamed ← matched.mapM fun name => do
    let found ← captures name (sourceParts.headD []).length sourceParts.tail
    return targetParts.headD [] ++ (List.zipWith (· ++ ·) found targetParts.tail).flatten
  return (matched, renamed)

/-! ### Field lists -/

/-- What a field list accepts besides fields. -/
structure ListOptions where
  options : List Text := []
  sorting : Bool := false
  wildcard : Bool := false

/-- Is `token` an option with a value, `token = value`? -/
def isOption (options : List Text) (token : Text) (rest : List Text) : Bool :=
  lower token ∈ options && 2 ≤ rest.length && rest.head? == some ['=']

/-- The loop of `field_list`; `first` at the first token. -/
def fieldListLoop (known : List Text) (o : ListOptions) : Nat → Bool → List Text → Except Raised Unit
  | 0, _, _ => .ok ()
  | _, _, [] => .ok ()
  | fuel + 1, first, token :: rest =>
      if isOption o.options token rest then fieldListLoop known o fuel false (rest.drop 2)
      else do
        let skipped :=
          token ∈ [",", "+", "-", "(", ")"].map String.toList
            || (o.sorting && first && db.isDigits token)
            || (o.sorting && lower token ∈ ["asc", "desc", "sortby"].map String.toList)
            || (o.sorting && lower token ∈ ["auto", "ip", "num", "str"].map String.toList
              && rest.head? == some ['('])
        if !skipped then requireField known (lstripChars ['+', '-'] token) o.wildcard
        fieldListLoop known o fuel false rest

/-- `field_list`. -/
def field_list (known : List Text) (o : ListOptions) (tokens : List Text) : Except Raised Unit :=
  fieldListLoop db known o tokens.length true tokens

/-! ### Commands -/

/-- Comparison operators of a search expression. -/
def comparators : List Text := ["=", "!=", "<>", "<", ">", "<=", ">="].map String.toList

/-- `search`: what stands before a comparison is a field. -/
def checkSearch (known : List Text) : List Text → Except Raised Unit
  | token :: operator :: rest => do
      if operator ∈ comparators || upper operator == "IN".toList then requireField known token false
      checkSearch known (operator :: rest)
  | _ => .ok ()

/-- One assignment of an `eval`; the name it defines. -/
def checkAssignment (known : List Text) (assignment : List Text) : Except Raised Text :=
  if assignment.length < 3 || assignment[1]? != some ['='] then syntaxNotSupported
  else if !isQuoted (assignment.headD []) && !isIdentifier db (assignment.headD []) then
    syntaxNotSupported
  else do
    expression db known (join " " (assignment.drop 2)) false
    field_name (assignment.headD [])

/-- The depth of parentheses after a token. -/
def depthAfter (depth : Int) (token : Text) : Int :=
  if token = ['('] then depth + 1 else if token = [')'] then depth - 1 else depth

/-- The loop of `eval`: assignments end at commas outside parentheses. -/
def evalLoop : List Text → List Text → Int → List Text → Except Raised (List Text)
  | known, _, depth, [] => if depth ≠ 0 then syntaxNotSupported else .ok known
  | known, assignment, depth, token :: rest =>
      let depth := depthAfter depth token
      if depth < 0 || depth > 32 then syntaxNotSupported
      else if token ≠ [','] || depth ≠ 0 then evalLoop known (assignment ++ [token]) depth rest
      else do
        let name ← checkAssignment db known assignment
        evalLoop (name :: known) [] depth rest

/-- The loop of `rename`: the names removed and the names added. -/
def renameLoop (known : List Text) :
    List Text → List Text × List Text → Except Raised (List Text × List Text)
  | [], acc => .ok acc
  | [','] :: rest, acc => renameLoop known rest acc
  | token :: word :: next :: rest, (removed, renamed) => do
      if lower word != "as".toList then syntaxNotSupported
      let source ← field_name token
      let target ← field_name next
      requireField known token true
      let (matched, replacements) ← aliases known source target
      renameLoop known rest (removed ++ matched, renamed ++ replacements)
  | _, _ => syntaxNotSupported

/-- The tokens up to the parenthesis closing `depth` open ones, and the rest. -/
def closeGroup : Nat → List Text → Option (List Text × List Text)
  | _, [] => none
  | depth, token :: rest =>
      if token = ['('] then (closeGroup (depth + 1) rest).map fun (m, r) => (token :: m, r)
      else if token = [')'] then
        if depth ≤ 1 then some ([], rest)
        else (closeGroup (depth - 1) rest).map fun (m, r) => (token :: m, r)
      else (closeGroup depth rest).map fun (m, r) => (token :: m, r)

/-- `(?:p|perc|exactperc|upperperc)(\d{1,3})` with a value of at most 100. -/
def isPercentile (token : Text) : Bool :=
  ["p", "perc", "exactperc", "upperperc"].any fun prefixed =>
    match token.dropPrefix? prefixed.toList with
    | none => false
    | some ds =>
        match ds.mapM db.decimalValue with
        | none => false
        | some ns => 1 ≤ ns.length && ns.length ≤ 3 && ns.foldl (fun v d => 10 * v + d) 0 ≤ 100

def aggregateOptions : List Text :=
  ["allnum", "partitions", "delim", "dedup_splitvals"].map String.toList

def chartOptions : List Text :=
  aggregateOptions ++ ["span", "minspan", "bins", "limit", "useother", "usenull", "cont",
    "fixedrange", "partial", "sep", "format", "nullstr", "otherstr", "start", "end",
    "aligntime"].map String.toList

/-- The arguments of an aggregate call: the text they stand for in a default output
name, and the wildcard they aggregate over, if any. -/
def checkArguments (known : List Text) (arguments : List Text) : Except Raised (Option Text) :=
  match arguments with
  | [argument] => do
      requireField known argument true
      let name ← field_name argument
      return if '*' ∈ name then some name else none
  | _ => do
      expression db known (join " " arguments) true
      return none

/-- The loop of `stats` and `timechart`; the names generated. -/
def statsLoop (known options : List Text) : Nat → List Text → List Text → Except Raised (List Text)
  | 0, generated, _ => .ok generated
  | _, generated, [] => .ok generated
  | fuel + 1, generated, token :: rest =>
      if token = [','] then statsLoop known options fuel generated rest
      else if isOption options token rest then
        statsLoop known options fuel generated (rest.drop 2)
      else if lower token = "by".toList then do
        field_list db known { options } rest
        return generated
      else do
        if lower token ∉ allowedStatsFunctions && !isPercentile db (lower token) then
          fieldError "function_not_allowed"
        let (output, wildcardSource, rest) ←
          (match rest with
          | ['('] :: inner =>
              match closeGroup 1 inner with
              | none => syntaxNotSupported
              | some (arguments, rest) => do
                  let wildcardSource ← checkArguments db known arguments
                  return (token ++ '(' :: arguments.flatten ++ [')'], wildcardSource, rest)
          | _ =>
              if lower token ∈ ["count", "c"].map String.toList then return (token, none, rest)
              else syntaxNotSupported : Except Raised (Text × Option Text × List Text))
        let aliased := rest.head?.any fun word => lower word == "as".toList
        let (output, rest) ←
          (if aliased then
            match rest with
            | _ :: name :: rest => return (← field_name name, rest)
            | _ => syntaxNotSupported
          else return (output, rest) : Except Raised (Text × List Text))
        let outputs ←
          match wildcardSource with
          | none => pure [output]
          | some pattern =>
              if aliased then (·.2) <$> aliases known pattern output
              else pure ((known.filter (Glob.fnmatch pattern)).map fun name =>
                token ++ '(' :: name ++ [')'])
        statsLoop known options fuel (generated ++ outputs) rest

/-- `head`: its arguments without the options. -/
def headPredicate : Nat → List Text → List Text
  | 0, tokens => tokens
  | _, [] => []
  | fuel + 1, token :: rest =>
      if isOption (["limit", "keeplast", "null"].map String.toList) token rest then
        headPredicate fuel (rest.drop 2)
      else token :: headPredicate fuel rest

/-- One command: the names known after it. -/
def checkSegment (known : List Text) : Segment → Except Raised (List Text)
  | (command, args) => do
      let some tokens := fieldTokens args | syntaxNotSupported
      match command with
      | .search => do checkSearch known tokens; return known
      | .«where» => do expression db known args false; return known
      | .eval => evalLoop db known [] 0 (tokens ++ [[',']])
      | .rename => do
          let (removed, renamed) ← renameLoop known tokens ([], [])
          return renamed ++ known.filter (· ∉ removed)
      | .stats => do return (← statsLoop db known aggregateOptions tokens.length [] tokens) ++ known
      | .timechart => do return (← statsLoop db known chartOptions tokens.length [] tokens) ++ known
      | .table | .fields => do field_list db known { wildcard := true } tokens; return known
      | .sort => do field_list db known { sorting := true } tokens; return known
      | .dedup => do
          field_list db known
            { options := ["keepevents", "keepempty", "consecutive"].map String.toList
              sorting := true } tokens
          return known
      | .regex => do
          match tokens with
          | field :: operator :: _ =>
              if operator ∈ ["=", "!="].map String.toList then requireField known field false
          | _ => pure ()
          return known
      | .head => do
          if !db.isDigits args then
            expression db known (join " " (headPredicate tokens.length tokens)) false
          return known

/-- The commands of a pipeline in order. -/
def checkSegments : List Text → List Segment → Except Raised (List Text)
  | known, [] => .ok known
  | known, segment :: rest => do checkSegments (← checkSegment db known segment) rest

/-- `_validate_field_references`. -/
def validate_field_references (parsed : ParsedSPL) (discovered : List Text) : Except Raised Unit := do
  let _ ← checkSegments db (discovered ++ builtinFields) parsed.command_segments
  return ()

end ThreatHunting.Spl
