import ThreatHunting.Spl.Pipeline

/-!
# ThreatHunting.Spl.Source

The source-scope proof of `domain/spl_policy.py`: `_scope_values` collects the
exact scope literals of a search expression, `_source_branches` expands the
expression into the source bounds of its alternatives, and `source_pairs`
combines them.

The recursive descent of the source is bounded by its own nesting limit, so
`atom` recurses on the levels that are left (`33 - depth`). The two operator
loops consume at least one token per round and recurse on the token count.
-/

namespace ThreatHunting.Spl

/-- The source bound of one alternative: an index and a sourcetype, `none` where
the alternative leaves the field unconstrained. -/
abbrev Branch := Option Text × Option Text

variable (db : UnicodeData)

/-- `match.group("field").casefold()`. -/
def ScopePredicate.foldedField (p : ScopePredicate) : Text := casefold p.field

/-! ### `_scope_values` -/

/-- The scope fields written anywhere in the text, each with the predicate that
starts there, if one does. -/
def scopeOccurrences (value : Text) : List (Text × Option ScopePredicate) :=
  Scan.findAll (fun prev cs =>
    (scopeField db prev cs).map fun m => (m.1, (scopePredicate cs).map Prod.fst)) value

/-- `_scope_values`: the values `field` is compared with, and whether some
occurrence of it is anything but an exact positive predicate. -/
def scope_values (value field : Text) : List Text × Bool :=
  let occurrences := (scopeOccurrences db value).filter fun o => casefold o.1 == field
  let negated := (Scan.findAll (negatedScope db) value).any fun f => casefold f == field
  ((occurrences.filterMap fun o => o.2.map ScopePredicate.selected).dedup,
    negated || occurrences.any fun o => o.2.isNone)

/-! ### `_source_branches` -/

/-- What `_source_branches` raises; every caller treats the messages alike. -/
def branchError (message : String) : Except Raised (List Branch × List Text) :=
  .error (.valueError message)

/-- The union of two sets of branches, rejected beyond 128 alternatives. -/
def uniteBranches (left right : List Branch) : Except Raised (List Branch) :=
  let united := left ∪ right
  if united.length > 128 then .error (.valueError "too many source alternatives") else .ok united

/-- The bound of two conditions that hold together; `none` if they contradict. -/
def meetBranch (left right : Branch) : Option Branch :=
  if (left.1.isSome && right.1.isSome && left.1 != right.1)
      || (left.2.isSome && right.2.isSome && left.2 != right.2) then none
  else some (left.1.or right.1, left.2.or right.2)

/-- Every consistent combination of two sets of branches, rejected beyond 128. -/
def combineBranches (left right : List Branch) : Except Raised (List Branch) :=
  let combined := (left.flatMap fun l => right.filterMap (meetBranch l)).dedup
  if combined.length > 128 then .error (.valueError "too many source alternatives")
  else .ok combined

/-- The branch of one predicate. -/
def predicateBranch (p : ScopePredicate) : Branch :=
  if p.foldedField == "index".toList then (some p.selected, none) else (none, some p.selected)

section Descent

variable (atom : List Text → Except Raised (List Branch × List Text))

/-- The loop of `disjunction`: more operands while the next token is `OR`. -/
def disjunctionLoop : Nat → List Branch → List Text → Except Raised (List Branch × List Text)
  | 0, branches, tokens => .ok (branches, tokens)
  | n + 1, branches, tokens =>
      match tokens with
      | token :: rest =>
          if token = "OR".toList then do
            let (right, rest) ← atom rest
            disjunctionLoop n (← uniteBranches branches right) rest
          else .ok (branches, tokens)
      | [] => .ok (branches, [])

def disjunction (tokens : List Text) : Except Raised (List Branch × List Text) := do
  let (branches, rest) ← atom tokens
  disjunctionLoop atom tokens.length branches rest

/-- The loop of `conjunction`: more operands until a closing parenthesis. -/
def conjunctionLoop : Nat → List Branch → List Text → Except Raised (List Branch × List Text)
  | 0, branches, tokens => .ok (branches, tokens)
  | n + 1, branches, tokens =>
      match tokens with
      | token :: rest =>
          if token = ")".toList then .ok (branches, tokens)
          else do
            let (right, rest) ← disjunction atom (if token = "AND".toList then rest else tokens)
            conjunctionLoop n (← combineBranches branches right) rest
      | [] => .ok (branches, [])

def conjunction (tokens : List Text) : Except Raised (List Branch × List Text) := do
  let (branches, rest) ← disjunction atom tokens
  conjunctionLoop atom tokens.length branches rest

end Descent

/-- `atom`, with `levels = 33 - depth` levels of nesting left. -/
def atom : Nat → List Text → Except Raised (List Branch × List Text)
  | 0, _ => branchError "incomplete or deeply nested source expression"
  | _ + 1, [] => branchError "incomplete or deeply nested source expression"
  | levels + 1, token :: rest =>
      if token = "NOT".toList then do
        let (_, after) ← atom levels rest
        let negated := rest.take (rest.length - after.length)
        if negated.any fun t => (scopePredicateFull t).isSome then
          branchError "negated source expression"
        else .ok ([(none, none)], after)
      else if token = "(".toList then do
        let (branches, after) ← conjunction (atom levels) rest
        match after with
        | close :: after =>
            if close = ")".toList then .ok (branches, after)
            else branchError "unbalanced source expression"
        | [] => branchError "unbalanced source expression"
      else if token = "AND".toList || token = "OR".toList || token = "XOR".toList
          || token = ")".toList then
        branchError "unexpected Boolean operator"
      else match scopePredicateFull token with
        | none => .ok ([(none, none)], rest)
        | some p => .ok ([predicateBranch p], rest)

/-- The tokens of a search expression, at most 2000 of them. -/
def sourceTokens (value : Text) : Except Raised (List Text) :=
  match Scan.tokens isSpace sourceToken value with
  | none => .error (.valueError "unsupported source expression")
  | some tokens =>
      if tokens.length > 2000 then .error (.valueError "unsupported source expression")
      else .ok tokens

/-- The nesting levels available to the outermost expression. -/
def maxLevels : Nat := 33

/-- `_source_branches`. -/
def source_branches (value : Text) : Except Raised (List Branch) := do
  let tokens ← sourceTokens value
  let (branches, rest) ← conjunction (atom maxLevels) tokens
  if rest.isEmpty then return branches
  else throw (.valueError "unexpected closing parenthesis")

/-- The pair of a branch that bounds both fields. -/
def boundedPair : Branch → Option (Text × Text)
  | (some index, some source) => some (index, source)
  | _ => none

/-- `source_pairs`. -/
def source_pairs (spl : Text) : Except Raised (List (Text × Text)) := do
  let parsed ← parse_spl db spl
  if (scope_values db parsed.search_expression "index".toList).2
      || (scope_values db parsed.search_expression "sourcetype".toList).2 then
    .error (.valueError "source scope is not exact")
  else do
    let branches ← source_branches parsed.search_expression
    if branches.isEmpty || branches.any fun b => b.1.isNone || b.2.isNone then
      .error (.valueError "source scope is contradictory or unbounded")
    else .ok (branches.filterMap boundedPair)

end ThreatHunting.Spl
