import ThreatHunting.Spl.Fields

/-!
# ThreatHunting.Spl.Flow

What a pipeline does to the columns of one event, independently of the policy's
checks. Projections keep or drop columns, `rename` moves them (with wildcards and in
lists), `eval` overwrites its targets, and the other commands for raw events leave
the columns alone. Arguments are read as tokens: a quoted name is one token,
and commas separate.
-/

namespace ThreatHunting.Spl

/-- The columns of one event. -/
abbrev Row (V : Type) := List (Text × V)

namespace Flow

/-! ### Arguments -/

/-- The name a token stands for: its text without the quotes around it. -/
def nameOf (token : Text) : Text :=
  match field_name token with
  | .ok name => name
  | .error _ => token

/-- The names in a list of fields. -/
def listNames (tokens : List Text) : List Text :=
  (tokens.filter (· ∉ [",", "+", "-", "(", ")"].map String.toList)).map fun t =>
    nameOf (lstripChars ['+', '-'] t)

/-- The clauses `source AS target` of a `rename`. -/
def clauses : List Text → List (Text × Text)
  | [','] :: rest => clauses rest
  | source :: _ :: target :: rest => (nameOf source, nameOf target) :: clauses rest
  | _ => []

/-- The assignments of an `eval`, separated by commas outside parentheses. -/
def assignments : List Text → Int → List Text → List (List Text)
  | current, _, [] => [current]
  | current, depth, token :: rest =>
      if token ≠ [','] || depthAfter depth token ≠ 0 then
        assignments (current ++ [token]) (depthAfter depth token) rest
      else current :: assignments [] (depthAfter depth token) rest

section Columns

variable {V : Type}

/-- Keep the columns that match one of the names. -/
def keep (names : List Text) (row : Row V) : Row V :=
  row.filter fun c => names.any (Glob.wildcard · c.1)

/-- Drop the columns that match one of the names. -/
def drop (names : List Text) (row : Row V) : Row V :=
  row.filter fun c => !names.any (Glob.wildcard · c.1)

/-- Move every column that `source` matches to the name `target` gives it. A column
already there is replaced, also where there is nothing to move. -/
def moveColumns (row : Row V) (clause : Text × Text) : Row V :=
  row.filterMap (fun c => (Glob.capture clause.1 c.1).map fun caps => (Glob.fill clause.2 caps, c.2))
    ++ row.filter fun c => !(Glob.wildcard clause.1 c.1 || c.1 == clause.2)

/-- Overwrite one column, or remove it where the expression is null. -/
def assign (name : Text) (value : Option V) (row : Row V) : Row V :=
  value.toList.map (fun v => (name, v)) ++ row.filter fun c => c.1 != name

variable (value : List Text → Row V → Option V)

/-- One assignment; `value` evaluates an expression on the columns. -/
def evalColumn (row : Row V) (assignment : List Text) : Row V :=
  assign (nameOf (assignment.headD [])) (value (assignment.drop 2) row) row

/-- What one command does to the columns; `none` where its arguments cannot be read. -/
def step (row : Row V) : Segment → Option (Row V)
  | (command, args) =>
      (fieldTokens args).map fun tokens =>
        match command with
        | .fields =>
            if args.head? == some '-' then drop (listNames tokens) row
            else keep (listNames tokens) row
        | .table => keep (listNames tokens) row
        | .rename => (clauses tokens).foldl moveColumns row
        | .eval => (assignments [] 0 tokens).foldl (evalColumn value) row
        | _ => row

/-- What a pipeline does to the columns, segment by segment. -/
def run : List Segment → Row V → Option (Row V)
  | [], row => some row
  | segment :: rest, row => (step value row segment).bind (run rest)

/-- Simulate a search text on one event. -/
def simulate (db : UnicodeData) (spl : Text) (row : Row V) : Option (Row V) :=
  (parseSegments db (pipelineParts spl)).toOption.bind fun segments => run value segments row

end Columns

end Flow

end ThreatHunting.Spl
