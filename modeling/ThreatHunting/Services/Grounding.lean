import ThreatHunting.Lib.JsonStrings
import ThreatHunting.Lib.Unfolding
import ThreatHunting.Services.EvidenceLookup

/-!
# ThreatHunting.Services.Grounding

`_flatten_scalar_values` of `services/evidence.py`, and the check of `_materialize_follow_up_questions`
(`services/investigation.py`) that an entity of an assessment is a complete value of a row it cites.

A string that is the JSON text of a container is gone through as well. Only `JSONDecodeError` says that a
string is no such text: `json.loads` raises another `ValueError` for an integer of more digits than
Python converts, and that is let through.
-/

namespace ThreatHunting

open Fallible
open Unfolding (Nested)

namespace Grounding

open Json (LoadError texts textsItems textsMembers)
open ModelOutput (Members)

/-! ### Flattening -/

/-- `json.loads`, as far as flattening relies on it: the strings it reads are shorter than the text. -/
structure Reader where
  loads : String → Except LoadError Json
  shorter : ∀ text value, loads text = .ok value → ∀ s ∈ texts value, s.length < text.length

/-- The reader of `Json.loads`; `float_of` is the `repr` of a number, if it is finite. -/
def Reader.python (float_of : List Char → Option String) : Reader where
  loads text := Json.loads (fun ds => (float_of ds).elim .nonfinite .float) text.toList
  shorter text value h s hs := by
    have hfloat : ∀ ds, texts ((float_of ds).elim .nonfinite .float) = [] := by
      intro ds
      cases float_of ds <;> rfl
    rw [← String.length_toList (s := text)]
    exact Json.length_lt_of_loads hfloat h s hs

/-- The exceptions of the check. -/
inductive Raised
  | value_error
  | recursion_error
  /-- An entity cites no row, or rows that are not among these. -/
  | unavailable_evidence (value : String) (refs allowed : List String)
  /-- Values at these fields are not observed. -/
  | not_observed (fields : String)
  deriving DecidableEq, Repr

/-- An exception of `json.loads` that is not caught. -/
def uncaught : LoadError → Option Raised
  | .decode_error => none
  | .value_error => some .value_error
  | .recursion_error => some .recursion_error

variable (json : Reader)

/-- `_flatten_scalar_values`, with so many nested calls left. -/
def flatten_scalar_values : Nat → Json → Except Raised (List Json)
  | 0, _ => .error .recursion_error
  | calls + 1, .object members => do
      return (← members.mapM fun member => flatten_scalar_values calls member.2).flatten
  | calls + 1, .array items => do
      return (← items.mapM (flatten_scalar_values calls)).flatten
  | calls + 1, .string text =>
      match json.loads text with
      | .error e =>
          match uncaught e with
          | none => .ok [.string text]
          | some raised => .error raised
      | .ok (.object members) => do
          return .string text :: (← members.mapM fun member => flatten_scalar_values calls member.2).flatten
      | .ok (.array items) => do
          return .string text :: (← items.mapM (flatten_scalar_values calls)).flatten
      | .ok _ => .ok [.string text]
  | _ + 1, .null => .ok []
  | _ + 1, value => .ok [value]

/-! ### What is flattened -/

/-- What a container holds. -/
def held : Json → List Json
  | .object members => members.map (·.2)
  | .array items => items
  | _ => []

/-- What flattening goes through in a value, where it can be found out. -/
def parts : Json → Except Raised (List Json)
  | .string text =>
      match json.loads text with
      | .error e =>
          match uncaught e with
          | none => .ok []
          | some raised => .error raised
      | .ok value => .ok (held value)
  | value => .ok (held value)

/-- A value that is neither null nor a container. -/
def isScalar : Json → Bool
  | .null | .array _ | .object _ => false
  | _ => true

/-- The scalar that a value is. -/
def scalar (value : Json) : List Json := if isScalar value then [value] else []

/-- A scalar that lies in a value, at any depth: in its objects and arrays, and in those its strings are the text of. -/
def Reachable (value scalar : Json) : Prop := isScalar scalar = true ∧ ∃ n, Nested (parts json) n value scalar

variable {json}

theorem mapM_map {α β γ : Type} (f : β → Except Raised γ) (g : α → β) (as : List α) :
    (as.map g).mapM f = as.mapM fun a => f (g a) := by
  induction as with
  | nil => rfl
  | cons a as ih => rw [List.map_cons, List.mapM_cons, List.mapM_cons, ih]

/-- Flattening collects the scalars of all that it goes through. -/
theorem flatten_eq_collect (calls : Nat) (value : Json) :
    flatten_scalar_values json calls value = Unfolding.collect (parts json) scalar .recursion_error calls value := by
  induction calls generalizing value with
  | zero => cases value <;> rfl
  | succ calls ih =>
      have hmembers : ∀ members : List (String × Json),
          (members.mapM fun member => flatten_scalar_values json calls member.2) =
            (members.map (·.2)).mapM (Unfolding.collect (parts json) scalar .recursion_error calls) := by
        intro members
        rw [mapM_map]
        exact congrArg (members.mapM ·) (funext fun member => ih member.2)
      have hitems : flatten_scalar_values json calls = Unfolding.collect (parts json) scalar .recursion_error calls :=
        funext ih
      cases value with
      | null => rfl
      | bool b => rfl
      | int n => rfl
      | float repr => rfl
      | nonfinite => rfl
      | array items =>
          rw [flatten_scalar_values, hitems]
          rfl
      | object members =>
          rw [flatten_scalar_values, hmembers]
          rfl
      | string text =>
          rw [flatten_scalar_values, Unfolding.collect, parts]
          cases hloads : json.loads text with
          | error e => cases e <;> rfl
          | ok decoded =>
              cases decoded with
              | array items =>
                  simp only [hitems]
                  rfl
              | object members =>
                  simp only [hmembers]
                  rfl
              | _ => rfl

/-! ### It ends -/

/-- One more than the length of the longest string in a value. -/
def longest (value : Json) : Nat := (texts value).foldr (fun s bound => max (s.length + 1) bound) 0

theorem longest_le {value : Json} {bound : Nat} : longest value ≤ bound ↔ ∀ s ∈ texts value, s.length < bound := by
  rw [longest]
  induction texts value with
  | nil => simp
  | cons s strings ih => rw [List.foldr_cons, Nat.max_le, List.forall_mem_cons, ih, Nat.succ_le_iff]

theorem texts_subset_of_held {value part : Json} (h : part ∈ held value) : texts part ⊆ texts value := by
  intro s hs
  cases value with
  | array items =>
      rw [texts, Json.textsItems_eq_flatMap, List.mem_flatMap]
      exact ⟨part, h, hs⟩
  | object members =>
      obtain ⟨member, hmember, rfl⟩ := List.mem_map.mp h
      rw [texts, Json.textsMembers_eq_flatMap, List.mem_flatMap]
      exact ⟨member, hmember, hs⟩
  | _ => cases h

theorem sizeOf_lt_of_held {value part : Json} (h : part ∈ held value) : sizeOf part < sizeOf value := by
  cases value with
  | array items =>
      have hlt : sizeOf part < sizeOf items := List.sizeOf_lt_of_mem h
      rw [Json.array.sizeOf_spec]
      omega
  | object members =>
      obtain ⟨⟨key, part⟩, hmember, rfl⟩ := List.mem_map.mp h
      have hlt := List.sizeOf_lt_of_mem hmember
      rw [Json.object.sizeOf_spec]
      rw [Prod.mk.sizeOf_spec] at hlt
      simp only
      omega
  | _ => cases h

theorem longest_le_of_held {value part : Json} (h : part ∈ held value) : longest part ≤ longest value :=
  longest_le.mpr fun s hs => longest_le.mp (Nat.le_refl (longest value)) s (texts_subset_of_held h hs)

/-- The strings of a part are shorter, or it is smaller and they are no longer. -/
def Smaller : Json → Json → Prop := InvImage (Prod.Lex (· < ·) (· < ·)) fun value => (longest value, sizeOf value)

theorem smaller_wf : WellFounded Smaller := InvImage.wf _ (WellFounded.prod_lex Nat.lt_wfRel.wf Nat.lt_wfRel.wf)

theorem smaller_of_held {value part : Json} (h : part ∈ held value) : Smaller part value := by
  rcases Nat.lt_or_eq_of_le (longest_le_of_held h) with hlt | heq
  · exact Prod.lex_iff.mpr (.inl hlt)
  · exact Prod.lex_iff.mpr (.inr ⟨heq, sizeOf_lt_of_held h⟩)

/-- What flattening goes through is smaller. -/
theorem smaller_of_parts {value part : Json} {found : List Json} (h : parts json value = .ok found) (hpart : part ∈ found) :
    Smaller part value := by
  cases value with
  | string text =>
      rw [parts] at h
      cases hloads : json.loads text with
      | error e =>
          cases e with
          | decode_error =>
              rw [hloads] at h
              cases h
              cases hpart
          | value_error => simp [hloads, uncaught] at h
          | recursion_error => simp [hloads, uncaught] at h
      | ok decoded =>
          rw [hloads] at h
          cases h
          -- all strings of the decoded value are shorter than the text, which is a string here
          have hdecoded : longest decoded ≤ text.length := longest_le.mpr (json.shorter text decoded hloads)
          have htext : text.length < longest (.string text) := longest_le.mp (Nat.le_refl _) text List.mem_cons_self
          exact Prod.lex_iff.mpr (.inl (((longest_le_of_held hpart).trans hdecoded).trans_lt htext))
  | null => cases h; cases hpart
  | bool b => cases h; cases hpart
  | int n => cases h; cases hpart
  | float repr => cases h; cases hpart
  | nonfinite => cases h; cases hpart
  | array items =>
      cases h
      exact smaller_of_held hpart
  | object members =>
      cases h
      exact smaller_of_held hpart

/-- No value has values nested in it without end. -/
theorem exists_depth (json : Reader) (value : Json) : ∃ depth, ∀ n part, Nested (parts json) n value part → n < depth :=
  Unfolding.exists_depth smaller_wf (fun _ _ _ hparts hpart => smaller_of_parts hparts hpart) value

/-! ### What it finds -/

/-- Flattening returns the scalars that lie in the value. -/
def Flattens (json : Reader) (calls : Nat) (value : Json) : Prop :=
  ∃ found, flatten_scalar_values json calls value = .ok found ∧ ∀ x, x ∈ found ↔ Reachable json value x

/-- No string in a value is a text that `json.loads` fails on in another way than with `JSONDecodeError`. -/
def Decodes (json : Reader) (value : Json) : Prop :=
  ∀ n text, Nested (parts json) n value (.string text) → ∀ e, json.loads text = .error e → e = .decode_error

/-- And nothing in it is nested deeper than the interpreter makes calls. -/
def Readable (json : Reader) (calls : Nat) (value : Json) : Prop :=
  (∀ n part, Nested (parts json) n value part → n < calls) ∧ Decodes json value

theorem succeeds_parts {value : Json} : Succeeds (parts json value) ↔
    ∀ text, value = .string text → ∀ e, json.loads text = .error e → e = .decode_error := by
  cases value with
  | string text =>
      rw [parts]
      simp only [Json.string.injEq, forall_eq']
      cases hloads : json.loads text with
      | ok decoded => simp
      | error e => cases e <;> simp [uncaught]
  | _ => exact iff_of_true (succeeds_ok _) nofun

theorem unfolds_iff_readable {calls : Nat} {value : Json} :
    Unfolding.Unfolds (parts json) calls value ↔ Readable json calls value := by
  simp only [Unfolding.Unfolds, Readable, Decodes, succeeds_parts]
  constructor
  · intro h
    exact ⟨fun n part hnested => (h n part hnested).1, fun n text hnested => (h n _ hnested).2 text rfl⟩
  · intro ⟨hdepth, hdecodes⟩ n part hnested
    refine ⟨hdepth n part hnested, fun text hpart => hdecodes n text ?_⟩
    rwa [← hpart]

theorem succeeds_flatten {calls : Nat} {value : Json} :
    Succeeds (flatten_scalar_values json calls value) ↔ Readable json calls value := by
  rw [flatten_eq_collect, Unfolding.succeeds_collect, unfolds_iff_readable]

theorem mem_scalar {x value : Json} : x ∈ scalar value ↔ isScalar x = true ∧ value = x := by
  rw [scalar]
  split
  next h =>
    rw [List.mem_singleton]
    exact ⟨fun heq => ⟨heq ▸ h, heq.symm⟩, fun heq => heq.2.symm⟩
  next h => exact iff_of_false List.not_mem_nil fun heq => h (heq.2 ▸ heq.1)

theorem mem_flatten {calls : Nat} {value : Json} {found : List Json}
    (h : flatten_scalar_values json calls value = .ok found) (x : Json) : x ∈ found ↔ Reachable json value x := by
  rw [flatten_eq_collect] at h
  rw [Unfolding.mem_collect h]
  simp only [mem_scalar, Reachable]
  constructor
  · rintro ⟨n, part, hnested, hx, rfl⟩
    exact ⟨hx, n, hnested⟩
  · intro ⟨hx, n, hnested⟩
    exact ⟨n, x, hnested, hx, rfl⟩

theorem flattens_iff {calls : Nat} {value : Json} : Flattens json calls value ↔ Readable json calls value := by
  rw [← succeeds_flatten]
  exact ⟨fun ⟨found, h, _⟩ => ⟨found, h⟩, fun ⟨found, h⟩ => ⟨found, h, mem_flatten h⟩⟩

/-! ### Entities -/

/-- `AssessmentEntity`, as far as it is checked. -/
structure AssessmentEntity where
  value : String
  result_row_refs : List String

/-- The rows of a query in `evidence_by_query`, by their evidence ids. A later row of an id takes the place of an
earlier one. -/
def evidence_of (py : EvidenceLookup.Interpreter) (evidence : Json) (query_id : String) : List (String × Members) :=
  match evidence with
  | .array items =>
      ((EvidenceLookup.mappings items).filter fun item => py.text (EvidenceLookup.value item "query_id") = query_id).map
        fun item => (py.text (EvidenceLookup.value item "evidence_id"), item)
  | _ => []

/-- `available.get(ref)`. -/
def row (available : List (String × Members)) (ref : String) : Option Members :=
  (available.reverse.find? (·.1 = ref)).map (·.2)

/-- `available[ref].get("selected_result")`, of a row that is there. -/
def selected_result (available : List (String × Members)) (ref : String) : Json :=
  (row available ref).elim .null fun item => EvidenceLookup.value item "selected_result"

/-- The texts in the order of their code points. -/
def sorted (strings : List String) : List String := strings.eraseDups.insertionSort (· ≤ ·)

section Check

variable (json : Reader) (py : EvidenceLookup.Interpreter) (calls : Nat) (available : List (String × Members))

/-- `observed_values`. -/
def observed_values (refs : List String) : Except Raised (List String) := do
  let found ← refs.mapM fun ref => flatten_scalar_values json calls (selected_result available ref)
  return found.flatten.map py.text

/-- `invalid_entity_positions`. -/
def invalid_entity_positions : List (AssessmentEntity × Nat) → Except Raised (List Nat)
  | [] => .ok []
  | (entity, position) :: rest => do
      let refs := entity.result_row_refs.eraseDups
      if refs.isEmpty || !refs.all fun ref => (row available ref).isSome then
        .error (.unavailable_evidence entity.value (sorted refs) (sorted (available.map (·.1))))
      let observed ← observed_values json py calls available refs
      let later ← invalid_entity_positions rest
      return (if entity.value ∈ observed then [] else [position]) ++ later

/-- What is raised for entities whose values are not observed. -/
def not_present (positions : List Nat) : String :=
  let fields := ", ".intercalate (positions.map fun position => s!"new_entities[{position}].value")
  "query assessment entity was not present as a complete scalar field value or list element in cited evidence: "
    ++ fields ++ ". Copy an observed value suitable for the entity type or remove that entity. "
    ++ "Substrings and parsed command-line paths are not accepted as entity values; "
    ++ "keep useful interpretations in the evidence-backed summary."

/-- The entities of an assessment are checked. -/
def ground_entities (new_entities : List AssessmentEntity) : Except Raised Unit := do
  let invalid ← invalid_entity_positions json py calls available new_entities.zipIdx
  if invalid.isEmpty then .ok () else .error (.not_observed (not_present invalid))

/-- The entity cites rows, and they are among these. -/
def Cites (entity : AssessmentEntity) : Prop :=
  entity.result_row_refs ≠ [] ∧ ∀ ref ∈ entity.result_row_refs, (row available ref).isSome

/-- The value is the text of a scalar that lies in a cited row. -/
def Grounded (entity : AssessmentEntity) : Prop :=
  ∃ ref ∈ entity.result_row_refs, ∃ x, Reachable json (selected_result available ref) x ∧ py.text x = entity.value

/-- The check accepts the values that are grounded, and no others. -/
def Grounds (new_entities : List AssessmentEntity) : Prop :=
  ∃ invalid, invalid_entity_positions json py calls available new_entities.zipIdx = .ok invalid ∧
    ∀ position entity, new_entities[position]? = some entity →
      (position ∉ invalid ↔ Grounded json py available entity)

variable {json py calls available}

theorem mem_observed_values {refs observed : List String} (h : observed_values json py calls available refs = .ok observed)
    (text : String) :
    text ∈ observed ↔ ∃ ref ∈ refs, ∃ x, Reachable json (selected_result available ref) x ∧ py.text x = text := by
  obtain ⟨found, hfound, h⟩ := bind_eq_ok.mp h
  cases h
  have hmem := mem_of_mapM hfound
  simp only [List.mem_map, List.mem_flatten]
  constructor
  · rintro ⟨x, ⟨list, hlist, hx⟩, rfl⟩
    obtain ⟨ref, href, hok⟩ := hmem.1 list hlist
    exact ⟨ref, href, x, (mem_flatten hok x).mp hx, rfl⟩
  · rintro ⟨ref, href, x, hx, rfl⟩
    obtain ⟨list, hlist, hok⟩ := hmem.2 ref href
    exact ⟨x, ⟨list, hlist, (mem_flatten hok x).mpr hx⟩, rfl⟩

theorem succeeds_observed_values {refs : List String} : Succeeds (observed_values json py calls available refs) ↔
    ∀ ref ∈ refs, Readable json calls (selected_result available ref) := by
  rw [observed_values, succeeds_bind (P := True) fun _ _ => iff_of_true (succeeds_pure _) trivial, succeeds_mapM]
  simp only [succeeds_flatten, and_true]

/-- The step of the loop, for an entity that cites rows that are there. -/
theorem invalid_entity_positions_cons {entity : AssessmentEntity} (hcites : Cites available entity) (position : Nat)
    (rest : List (AssessmentEntity × Nat)) :
    invalid_entity_positions json py calls available ((entity, position) :: rest) = do
      let observed ← observed_values json py calls available entity.result_row_refs.eraseDups
      let later ← invalid_entity_positions json py calls available rest
      return (if entity.value ∈ observed then [] else [position]) ++ later := by
  have hguard : (entity.result_row_refs.eraseDups.isEmpty ||
      !entity.result_row_refs.eraseDups.all fun ref => (row available ref).isSome) = false := by
    obtain ⟨ref, href⟩ := List.exists_mem_of_ne_nil _ hcites.1
    have hsome : entity.result_row_refs.eraseDups ≠ [] := List.ne_nil_of_mem (List.mem_eraseDups.mpr href)
    have hall : ∀ ref ∈ entity.result_row_refs.eraseDups, (row available ref).isSome = true := fun ref href =>
      hcites.2 ref (List.mem_eraseDups.mp href)
    simp only [Bool.or_eq_false_iff, List.isEmpty_eq_false_iff, Bool.not_eq_false', List.all_eq_true]
    exact ⟨hsome, hall⟩
  rw [invalid_entity_positions, hguard]
  rfl

theorem mem_invalid_entity_positions {pairs : List (AssessmentEntity × Nat)} (hcites : ∀ pair ∈ pairs, Cites available pair.1)
    {invalid : List Nat} (h : invalid_entity_positions json py calls available pairs = .ok invalid) (position : Nat) :
    position ∈ invalid ↔ ∃ entity, (entity, position) ∈ pairs ∧ ¬Grounded json py available entity := by
  induction pairs generalizing invalid with
  | nil =>
      cases h
      simp
  | cons pair pairs ih =>
      obtain ⟨first, start⟩ := pair
      obtain ⟨hfirst, hrest⟩ := List.forall_mem_cons.mp hcites
      rw [invalid_entity_positions_cons hfirst] at h
      obtain ⟨observed, hobserved, h⟩ := bind_eq_ok.mp h
      obtain ⟨later, hlater, h⟩ := bind_eq_ok.mp h
      cases h
      have hvalue : first.value ∈ observed ↔ Grounded json py available first := by
        rw [mem_observed_values hobserved]
        simp only [List.mem_eraseDups, Grounded]
      rw [List.mem_append, ih hrest hlater]
      constructor
      · rintro (hposition | ⟨entity, hmem, hnot⟩)
        · split at hposition
          · cases hposition
          next hunobserved =>
            rw [List.mem_singleton.mp hposition]
            exact ⟨first, List.mem_cons_self, fun hgrounded => hunobserved (hvalue.mpr hgrounded)⟩
        · exact ⟨entity, List.mem_cons_of_mem _ hmem, hnot⟩
      · intro ⟨entity, hmem, hnot⟩
        rcases List.mem_cons.mp hmem with heq | hmem
        · cases heq
          rw [if_neg fun hobserved => hnot (hvalue.mp hobserved)]
          exact .inl List.mem_cons_self
        · exact .inr ⟨entity, hmem, hnot⟩

theorem succeeds_invalid_entity_positions {pairs : List (AssessmentEntity × Nat)}
    (hcites : ∀ pair ∈ pairs, Cites available pair.1) :
    Succeeds (invalid_entity_positions json py calls available pairs) ↔
      ∀ pair ∈ pairs, ∀ ref ∈ pair.1.result_row_refs, Readable json calls (selected_result available ref) := by
  induction pairs with
  | nil => simp [invalid_entity_positions]
  | cons pair pairs ih =>
      obtain ⟨first, start⟩ := pair
      obtain ⟨hfirst, hrest⟩ := List.forall_mem_cons.mp hcites
      rw [invalid_entity_positions_cons hfirst, List.forall_mem_cons, ← ih hrest]
      rw [succeeds_bind fun observed _ => succeeds_bind (P := True) fun later _ =>
        iff_of_true (succeeds_pure _) trivial, succeeds_observed_values]
      simp only [List.mem_eraseDups, and_true]

/-- The check accepts what is grounded exactly if the cited rows are readable. -/
theorem grounds_iff {new_entities : List AssessmentEntity} (hcites : ∀ entity ∈ new_entities, Cites available entity) :
    Grounds json py calls available new_entities ↔
      ∀ entity ∈ new_entities, ∀ ref ∈ entity.result_row_refs, Readable json calls (selected_result available ref) := by
  have hpairs : ∀ pair ∈ new_entities.zipIdx, Cites available pair.1 := fun pair hpair =>
    hcites pair.1 (List.fst_mem_of_mem_zipIdx hpair)
  have hsucceeds : Succeeds (invalid_entity_positions json py calls available new_entities.zipIdx) ↔ _ :=
    succeeds_invalid_entity_positions hpairs
  constructor
  · intro ⟨invalid, hinvalid, _⟩ entity hentity
    obtain ⟨position, hposition⟩ := List.mem_iff_getElem?.mp hentity
    exact hsucceeds.mp ⟨invalid, hinvalid⟩ (entity, position) (List.mem_zipIdx_iff_getElem?.mpr hposition)
  · intro h
    obtain ⟨invalid, hinvalid⟩ := hsucceeds.mpr fun pair hpair => h pair.1 (List.fst_mem_of_mem_zipIdx hpair)
    refine ⟨invalid, hinvalid, fun position entity hentity => ?_⟩
    rw [mem_invalid_entity_positions hpairs hinvalid]
    constructor
    · intro hnone
      by_contra hnot
      exact hnone ⟨entity, List.mem_zipIdx_iff_getElem?.mpr hentity, hnot⟩
    · rintro hgrounded ⟨other, hother, hnot⟩
      obtain rfl : other = entity := Option.some.inj ((List.mem_zipIdx_iff_getElem?.mp hother).symm.trans hentity)
      exact hnot hgrounded

/-- Entities pass the check exactly if their values are grounded, where the cited rows are readable. -/
theorem ground_entities_eq_ok {new_entities : List AssessmentEntity} (hcites : ∀ entity ∈ new_entities, Cites available entity)
    (hreadable : ∀ entity ∈ new_entities, ∀ ref ∈ entity.result_row_refs, Readable json calls (selected_result available ref)) :
    ground_entities json py calls available new_entities = .ok () ↔
      ∀ entity ∈ new_entities, Grounded json py available entity := by
  have hpairs : ∀ pair ∈ new_entities.zipIdx, Cites available pair.1 := fun pair hpair =>
    hcites pair.1 (List.fst_mem_of_mem_zipIdx hpair)
  have hgrounds : Grounds json py calls available new_entities := (grounds_iff hcites).mpr hreadable
  obtain ⟨invalid, hinvalid, -⟩ := hgrounds
  have hmem := mem_invalid_entity_positions hpairs hinvalid
  have hempty : invalid.isEmpty = true ↔ ∀ entity ∈ new_entities, Grounded json py available entity := by
    rw [List.isEmpty_iff, List.eq_nil_iff_forall_not_mem]
    simp only [hmem, not_exists, not_and, not_not]
    constructor
    · intro h entity hentity
      obtain ⟨position, hposition⟩ := List.mem_iff_getElem?.mp hentity
      exact h position entity (List.mem_zipIdx_iff_getElem?.mpr hposition)
    · exact fun h position entity hentity => h entity (List.fst_mem_of_mem_zipIdx hentity)
  rw [ground_entities, hinvalid, ok_bind, ← hempty]
  split
  next h => exact iff_of_true rfl h
  next h => exact iff_of_false nofun h

end Check

/-- **Flattening and grounding.** With enough calls flattening returns exactly the scalars that lie in a value, unless
`json.loads` raises another error than it expects; with a limit on the calls it does so for the values that
are readable, and the check of entities is exact where the rows they cite are readable. -/
theorem flattening_exact (json : Reader) (py : EvidenceLookup.Interpreter) :
    (∀ value, ∃ depth, ∀ calls ≥ depth, Flattens json calls value ↔ Decodes json value) ∧
    (∀ calls value, Flattens json calls value ↔ Readable json calls value) ∧
    ∀ (calls : Nat) (available : List (String × Members)) (new_entities : List AssessmentEntity),
      (∀ entity ∈ new_entities, Cites available entity) →
        (Grounds json py calls available new_entities ↔ ∀ entity ∈ new_entities, ∀ ref ∈ entity.result_row_refs,
          Readable json calls (selected_result available ref)) := by
  refine ⟨fun value => ?_, fun _ _ => flattens_iff, fun _ _ _ hcites => grounds_iff hcites⟩
  obtain ⟨depth, hdepth⟩ := exists_depth json value
  refine ⟨depth, fun calls hcalls => flattens_iff.trans ⟨fun h => h.2, fun h => ⟨fun n part hnested => ?_, h⟩⟩⟩
  exact (hdepth n part hnested).trans_le hcalls

/-! ### A number that is too long -/

/-- A reader, for which the text of a float is its literal. -/
def sampleReader : Reader := .python fun ds => some (String.ofList ds)

/-- One row, with these fields. -/
def sampleRow (fields : Members) : List (String × Members) := [("evidence-1", [("selected_result", .object fields)])]

/-- An entity that cites it. -/
def sampleEntity : AssessmentEntity := ⟨"alice", ["evidence-1"]⟩

theorem sampleEntity_cites (fields : Members) : ∀ entity ∈ [sampleEntity], Cites (sampleRow fields) entity := by
  intro entity hentity
  rw [List.mem_singleton.mp hentity]
  exact ⟨by decide, fun ref href => by rw [List.mem_singleton.mp href]; rfl⟩

theorem alice_grounds :
    Grounds sampleReader EvidenceLookup.sampleInterpreter 10 (sampleRow [("user", .string "alice")]) [sampleEntity] := by
  refine ((flattening_exact sampleReader EvidenceLookup.sampleInterpreter).2.2 10 _ _ (sampleEntity_cites _)).mpr ?_
  intro entity hentity ref href
  rw [List.mem_singleton.mp hentity] at href
  rw [List.mem_singleton.mp href]
  exact succeeds_flatten.mp ⟨[.string "alice"], rfl⟩

theorem sampleReader_nines {n : Nat} (hlong : Json.maxDigits < n) :
    sampleReader.loads (String.ofList (List.replicate n '9')) = .error .value_error := by
  have hnines := Json.loads_nines (fun ds => (some (String.ofList ds)).elim .nonfinite .float) hlong
  rwa [← String.toList_ofList (l := List.replicate n '9')] at hnines

/-- 4301 nines. -/
def longNumber : String := String.ofList (List.replicate 4301 '9')

theorem sampleReader_longNumber : sampleReader.loads longNumber = .error .value_error :=
  sampleReader_nines (Nat.lt_succ_self 4300)

/-- The row's other field is not reached. -/
theorem ground_entities_raises {token : String} (htoken : sampleReader.loads token = .error .value_error) (calls : Nat) :
    ground_entities sampleReader EvidenceLookup.sampleInterpreter (calls + 2)
      (sampleRow [("token", .string token), ("user", .string "alice")]) [sampleEntity] = .error .value_error := by
  have hstring : flatten_scalar_values sampleReader (calls + 1) (.string token) = .error .value_error := by
    rw [flatten_scalar_values, htoken]
    rfl
  have hfields : flatten_scalar_values sampleReader (calls + 2)
      (selected_result (sampleRow [("token", .string token), ("user", .string "alice")]) "evidence-1") =
        .error .value_error := by
    show flatten_scalar_values sampleReader (calls + 2) (.object _) = _
    rw [flatten_scalar_values, List.mapM_cons, hstring]
    rfl
  have hobserved : observed_values sampleReader EvidenceLookup.sampleInterpreter (calls + 2)
      (sampleRow [("token", .string token), ("user", .string "alice")]) sampleEntity.result_row_refs.eraseDups =
        .error .value_error := by
    show observed_values _ _ _ _ ["evidence-1"] = _
    rw [observed_values, List.mapM_cons, hfields]
    rfl
  rw [ground_entities, List.zipIdx_cons, invalid_entity_positions_cons (sampleEntity_cites _ _ List.mem_cons_self), hobserved]
  rfl

/-- A row that has such a text cannot be flattened, and the check of a value of another of its fields fails with it. -/
theorem long_number_raises :
    (∀ calls, ¬Flattens sampleReader calls (.string longNumber)) ∧
    ∃ (available : List (String × Members)) (entity : AssessmentEntity), Cites available entity ∧
      Grounded sampleReader EvidenceLookup.sampleInterpreter available entity ∧
      ∀ calls ≥ 2, ground_entities sampleReader EvidenceLookup.sampleInterpreter calls available [entity] =
        .error .value_error := by
  refine ⟨fun calls hflattens => ?_, sampleRow [("token", .string longNumber), ("user", .string "alice")], sampleEntity, ?_⟩
  · have hreadable := flattens_iff.mp hflattens
    cases hreadable.2 0 longNumber (.self _) _ sampleReader_longNumber
  · refine ⟨sampleEntity_cites _ _ List.mem_cons_self, ⟨"evidence-1", List.mem_cons_self, .string "alice", ?_, rfl⟩, ?_⟩
    · exact ⟨rfl, 1, .part rfl (List.mem_cons_of_mem _ List.mem_cons_self) (.self _)⟩
    · intro calls hcalls
      obtain ⟨calls, rfl⟩ : ∃ n, calls = n + 2 := ⟨calls - 2, by omega⟩
      exact ground_entities_raises sampleReader_longNumber calls

end Grounding

end ThreatHunting
