import ThreatHunting.Lib.Rewriting
import ThreatHunting.Services.Grounding

/-!
# ThreatHunting.Services.ThreatIntel

`services/threat_intel.py`: the indicators in what the analyst supplied, and the comparison of a retained result
with them. The indicators are read from the patterns of a STIX bundle, or from the text as it is; a result is compared
by its scalars, in whatever depth they lie.
-/

namespace ThreatHunting

open Fallible Rewriting

namespace ThreatIntel

open Grounding (Reader flatten_scalar_values)
open ModelOutput (Members get)
open Json (LoadError)

/-- The exceptions of follow-up planning. -/
inductive Raised
  | value_error
  | type_error
  | key_error
  | attribute_error
  | recursion_error
  | stop_iteration
  | validation (message : String)
  /-- `AdapterError` of the category `QUERY_POLICY_REJECTED`. -/
  | query_policy_rejected (message : String)
  deriving DecidableEq, Repr

/-! ### Indicators -/

/-- `[A-Fa-f0-9]`. -/
def isHexDigit (c : Char) : Bool := isAsciiDigit c || ('a' ≤ c && c ≤ 'f') || ('A' ≤ c && c ≤ 'F')

/-- `[A-Fa-f0-9]{n}` with no such digit before or after it. -/
def hashPattern (n : Nat) : Pattern Char Text := fun prev cs =>
  let digits := cs.take n
  if prev.any isHexDigit || digits.length ≠ n || !digits.all isHexDigit || (cs.drop n).head?.any isHexDigit then none
  else some (digits, cs.drop n)

/-- `name\s*=\s*'([^']+)'`, ignoring case: what stands in the quotes. -/
def literalPattern (name : Text) : Pattern Char Text := fun _ cs =>
  match (takeKeyword name cs).map fun m => skipSpaces m.2 with
  | some ('=' :: rest) =>
      match skipSpaces rest with
      | '\'' :: rest =>
          match rest.takeWhile (· ≠ '\''), rest.dropWhile (· ≠ '\'') with
          | c :: literal, _ :: after => some (c :: literal, after)
          | _, _ => none
      | _ => none
  | _ => none

/-- The indicators that are extracted. -/
structure AdvisoryIocs where
  sha256 : List Text
  sha1 : List Text
  md5 : List Text
  file_names : List Text
  domains : List Text
  deriving DecidableEq

/-- The indicators a query may ask for. -/
structure IocContext where
  file_hashes : List Text
  file_names : List Text
  domains : List Text
  deriving DecidableEq

/-- The pattern of a STIX indicator. -/
def indicatorPattern : Json → Option Text
  | .object item =>
      match get item "type", get item "pattern" with
      | some (.string type), some (.string pattern) => if type = "indicator" then some pattern.toList else none
      | _, _ => none
  | _ => none

/-- `patterns`: those of a bundle, or the text itself. -/
def patterns (json : Reader) (text : String) : Except Raised (List Text) :=
  match json.loads text with
  | .error .decode_error => .ok [text.toList]
  | .error .value_error => .error .value_error
  | .error .recursion_error => .error .recursion_error
  | .ok (.object document) =>
      match get document "objects" with
      | some (.array items) => .ok (items.filterMap indicatorPattern)
      | _ => .ok [text.toList]
  | .ok _ => .ok [text.toList]

/-- `limit`. -/
def maxIocs : Nat := 50

/-- `values`: the hashes of one length, as they are first found, in upper case. -/
def hashes (n : Nat) (source : Text) : List Text :=
  (((finditer (hashPattern n) source).map fun h => h.map asciiUpper).eraseDups).take maxIocs

/-- `captured`: what stands in the quotes. -/
def literals (name : String) (source : Text) : List Text :=
  ((finditer (literalPattern name.toList) source).eraseDups).take maxIocs

/-- `extract_advisory_iocs`. -/
def extract_advisory_iocs (json : Reader) (text : String) : Except Raised AdvisoryIocs := do
  let source := join "\n" (← patterns json text)
  return {
    sha256 := hashes 64 source
    sha1 := hashes 40 source
    md5 := hashes 32 source
    file_names := literals "file:name" source
    domains := literals "domain-name:value" source }

/-- `query_ioc_context`. -/
def query_ioc_context (json : Reader) (text : String) : Except Raised IocContext := do
  let extracted ← extract_advisory_iocs json text
  return {
    file_hashes := (extracted.sha256 ++ extracted.sha1 ++ extracted.md5).eraseDups
    file_names := extracted.file_names
    domains := extracted.domains }

/-! ### Comparison -/

/-- `_HASH_PATTERNS` with `fullmatch`. -/
def isHash (value : Text) : Bool := (value.length ∈ [64, 40, 32]) && value.all isHexDigit

/-- What a result has in common with the advisory; a hash literal with whether it is one of the advisory's. -/
structure IocComparison where
  hash_literals : List (Text × Bool)
  matched_file_name_literals : List Text
  matched_domain_literals : List Text
  deriving DecidableEq

/-- Does a record have anything that the advisory names? -/
def IocComparison.matched (c : IocComparison) : Bool :=
  !c.matched_file_name_literals.isEmpty || !c.matched_domain_literals.isEmpty || c.hash_literals.any (·.2)

/-- What flattening raises. -/
def flattenRaised : Grounding.Raised → Raised
  | .recursion_error => .recursion_error
  | _ => .value_error

/-- `_flatten_scalar_values`. -/
def scalars (json : Reader) (calls : Nat) (value : Json) : Except Raised (List Json) :=
  (flatten_scalar_values json calls value).mapError flattenRaised

/-- A string among the scalars. -/
def stringValue : Json → Option Text
  | .string s => some s.toList
  | _ => none

/-- `compare_advisory_iocs`. -/
def compare_advisory_iocs (json : Reader) (calls : Nat) (selected_result : Json) (iocs : IocContext) :
    Except Raised IocComparison := do
  let values := ((← scalars json calls selected_result).filterMap stringValue).eraseDups
  return {
    hash_literals := (values.filter isHash).map fun value => (value, upper value ∈ iocs.file_hashes)
    matched_file_name_literals := values.filter (· ∈ iocs.file_names)
    matched_domain_literals := values.filter (· ∈ iocs.domains) }

end ThreatIntel

end ThreatHunting
