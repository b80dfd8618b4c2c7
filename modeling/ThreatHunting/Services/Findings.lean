import ThreatHunting.Lib.Transactions
import ThreatHunting.Domain.Common

/-!
# ThreatHunting.Services.Findings

`FindingsRepository` of `services/findings.py`: `save_entity`, `save_pivot` and `save_finding` look a
record up by its natural key, insert it if there is none, and read again if the insert is
refused. The tables and their unique constraints are those of `services/schema.py`.

Over PostgreSQL an insert that is refused has aborted the transaction: the second read fails, and
links inserted before a refused link are rolled back. So saving is idempotent in the runs in which
no insert meets a taken key, apart from the single link of an entity that is already saved.
-/

namespace ThreatHunting

namespace Findings

open Transactions

/-- `EntityType`. -/
inductive EntityType
  | host | user | ip | process | file | domain | other
  deriving DecidableEq, Repr

/-- `FindingClassification`. -/
inductive FindingClassification
  | hunt_lead | supported_observation | not_supported_within_scope
  deriving DecidableEq, Repr

/-- `Confidence`. -/
inductive Confidence
  | low | medium | high
  deriving DecidableEq, Repr

/-- `ContextReference`. -/
structure ContextReference where
  context_id : Uuid
  context_kind : String
  provenance : String
  deriving DecidableEq, Repr

/-- `ExtractedEntity`. -/
structure ExtractedEntity where
  entity_id : Uuid
  owner_id : Uuid
  hunt_id : Uuid
  entity_type : EntityType
  value : String
  evidence_ids : List Uuid := []
  result_row_refs : List String
  created_at_utc : Instant
  deriving DecidableEq, Repr

/-- `Pivot`. -/
structure Pivot where
  pivot_id : Uuid
  owner_id : Uuid
  hunt_id : Uuid
  entity_id : Option Uuid
  pivot_type : String
  value : String
  rationale : String
  evidence_ids : List Uuid
  query_ids : List Uuid
  created_at_utc : Instant
  deriving DecidableEq, Repr

/-- `FindingDraft`. -/
structure FindingDraft where
  finding_id : Uuid
  owner_id : Uuid
  hunt_id : Uuid
  title : String
  classification : FindingClassification
  statement : String
  confidence : Confidence
  evidence_ids : List Uuid
  query_ids : List Uuid
  context_refs : List ContextReference
  inference : String
  limitations : List String
  created_at_utc : Instant
  idempotency_key : Option String
  deriving DecidableEq, Repr

/-! ### Tables -/

/-- A row of `entities`. -/
structure EntityRow where
  entity_id : Uuid
  owner_id : Uuid
  hunt_id : Uuid
  entity_type : EntityType
  value : String
  result_row_refs : List String
  created_at_utc : Instant
  deriving DecidableEq, Repr

/-- A row of `entity_evidence`. -/
structure LinkRow where
  entity_id : Uuid
  evidence_id : Uuid
  owner_id : Uuid
  hunt_id : Uuid
  deriving DecidableEq, Repr

/-- A row of `findings`, whose `idempotency_key` is not null. -/
structure FindingRow where
  draft : FindingDraft
  idempotency_key : String
  deriving DecidableEq, Repr

/-- A row of one of the tables. A row of `pivots` has the fields of a pivot. -/
inductive Row
  | entity (row : EntityRow)
  | link (row : LinkRow)
  | pivot (row : Pivot)
  | finding (row : FindingRow)
  deriving DecidableEq, Repr

/-- A value of a primary key or a unique constraint. -/
inductive Key
  | entity_id (entity_id : Uuid)
  | entity_value (owner_id hunt_id : Uuid) (entity_type : EntityType) (value : String)
  | link (entity_id evidence_id : Uuid)
  | pivot_id (pivot_id : Uuid)
  | pivot_value (owner_id hunt_id : Uuid) (pivot_type value : String)
  | finding_id (finding_id : Uuid)
  | finding_idempotency (owner_id hunt_id : Uuid) (idempotency_key : String)
  deriving DecidableEq, Repr

namespace Row

/-- The primary key and the unique constraint of a row. -/
def keys : Row → List Key
  | .entity r => [.entity_id r.entity_id, .entity_value r.owner_id r.hunt_id r.entity_type r.value]
  | .link r => [.link r.entity_id r.evidence_id]
  | .pivot r => [.pivot_id r.pivot_id, .pivot_value r.owner_id r.hunt_id r.pivot_type r.value]
  | .finding r => [.finding_id r.draft.finding_id,
      .finding_idempotency r.draft.owner_id r.draft.hunt_id r.idempotency_key]

/-- The lengths of the text columns. -/
def fits : Row → Bool
  | .entity r => r.value.length ≤ 500
  | .link _ => true
  | .pivot r => r.pivot_type.length ≤ 64 && r.value.length ≤ 500 && r.rationale.length ≤ 2000
  | .finding r => r.draft.title.length ≤ 500 && r.draft.statement.length ≤ 4000
      && r.draft.inference.length ≤ 4000 && r.idempotency_key.length ≤ 64

end Row

/-- `services/schema.py`. -/
def schema : Schema Row Key where
  keys := Row.keys
  fits := Row.fits

/-- Does a row hold a key? -/
def holds (key : Key) (row : Row) : Bool := key ∈ row.keys

/-! ### Saving -/

/-- The body of the three methods: a row that holds the natural key, or none once `row` has been
inserted. After a refused insert the row is looked up by `primary`. -/
def lookup_or_insert (natural primary : Key) (row : Row) (missing : Body Row (Option Row)) :
    Body Row (Option Row) := do
  match ← Body.first (holds natural) with
  | some existing => return some existing
  | none =>
      Body.exceptIntegrity (do Body.add row; return none) (do
        match ← Body.first (holds primary) with
        | some existing => return some existing
        | none => missing)

namespace ExtractedEntity

def values (entity : ExtractedEntity) : EntityRow where
  entity_id := entity.entity_id
  owner_id := entity.owner_id
  hunt_id := entity.hunt_id
  entity_type := entity.entity_type
  value := entity.value
  result_row_refs := entity.result_row_refs
  created_at_utc := entity.created_at_utc

/-- `_entity_from_row`. -/
def from_row (row : EntityRow) : ExtractedEntity where
  entity_id := row.entity_id
  owner_id := row.owner_id
  hunt_id := row.hunt_id
  entity_type := row.entity_type
  value := row.value
  result_row_refs := row.result_row_refs
  created_at_utc := row.created_at_utc

def natural (entity : ExtractedEntity) : Key :=
  .entity_value entity.owner_id entity.hunt_id entity.entity_type entity.value

def link (entity : ExtractedEntity) (entity_id evidence_id : Uuid) : LinkRow where
  entity_id
  evidence_id
  owner_id := entity.owner_id
  hunt_id := entity.hunt_id

end ExtractedEntity

/-- The loop over `evidence_ids`; a link that is refused is taken to be there already. -/
def save_links (entity : ExtractedEntity) (entity_id : Uuid) : List Uuid → Body Row Unit
  | [] => return ()
  | evidence_id :: evidence_ids => do
      Body.exceptIntegrity (Body.add (.link (entity.link entity_id evidence_id))) (return ())
      save_links entity entity_id evidence_ids

/-- `save_entity`. -/
def save_entity (entity : ExtractedEntity) : Body Row ExtractedEntity := do
  let existing ← lookup_or_insert entity.natural (.entity_id entity.entity_id) (.entity entity.values)
    (.raise .unique_violation)
  let result :=
    match existing with
    | some (.entity row) => ExtractedEntity.from_row row
    | _ => entity
  save_links entity result.entity_id entity.evidence_ids
  return result

/-- `save_pivot`. -/
def save_pivot (pivot : Pivot) : Body Row Pivot := do
  let existing ← lookup_or_insert (.pivot_value pivot.owner_id pivot.hunt_id pivot.pivot_type pivot.value)
    (.pivot_id pivot.pivot_id) (.pivot pivot) (return none)
  match existing with
  | some (.pivot row) => return row
  | _ => return pivot

/-- What the SHA-256 of a finding without an idempotency key is computed from. -/
structure FindingEnvelope where
  owner_id : Uuid
  hunt_id : Uuid
  title : String
  classification : FindingClassification
  statement : String
  confidence : Confidence
  evidence_ids : List Uuid
  query_ids : List Uuid
  context_refs : List Uuid
  inference : String
  limitations : List String
  deriving DecidableEq, Repr

namespace FindingDraft

variable (sha256 : FindingEnvelope → String)

/-- `computed_idempotency_key`. -/
def computed_idempotency_key (finding : FindingDraft) : String :=
  let envelope : FindingEnvelope := {
    owner_id := finding.owner_id
    hunt_id := finding.hunt_id
    title := finding.title
    classification := finding.classification
    statement := finding.statement
    confidence := finding.confidence
    evidence_ids := finding.evidence_ids.insertionSort (· ≤ ·)
    query_ids := finding.query_ids.insertionSort (· ≤ ·)
    context_refs := (finding.context_refs.map (·.context_id)).insertionSort (· ≤ ·)
    inference := finding.inference
    limitations := finding.limitations }
  match finding.idempotency_key with
  | some key => if key.isEmpty then sha256 envelope else key
  | none => sha256 envelope

def natural (finding : FindingDraft) : Key :=
  .finding_idempotency finding.owner_id finding.hunt_id (finding.computed_idempotency_key sha256)

/-- `_finding_from_row`. -/
def from_row (row : FindingRow) : FindingDraft :=
  { row.draft with idempotency_key := some row.idempotency_key }

end FindingDraft

variable (sha256 : FindingEnvelope → String)

/-- `save_finding`. -/
def save_finding (finding : FindingDraft) : Body Row FindingDraft := do
  let existing ← lookup_or_insert (finding.natural sha256) (.finding_id finding.finding_id)
    (.finding ⟨finding, finding.computed_idempotency_key sha256⟩) (return none)
  match existing with
  | some (.finding row) => return FindingDraft.from_row row
  | _ => return finding

/-! ### Calls -/

/-- A call of one of the three methods. -/
inductive Call
  | save_entity (entity : ExtractedEntity)
  | save_pivot (pivot : Pivot)
  | save_finding (finding : FindingDraft)

/-- What a call returns. -/
inductive Saved
  | entity (entity : ExtractedEntity)
  | pivot (pivot : Pivot)
  | finding (finding : FindingDraft)

/-- The primary key of the record a call returns. -/
def Saved.primary : Saved → Key
  | .entity saved => .entity_id saved.entity_id
  | .pivot saved => .pivot_id saved.pivot_id
  | .finding saved => .finding_id saved.finding_id

namespace Call

/-- The transaction of a call. -/
def body : Call → Body Row Saved
  | .save_entity entity => do return .entity (← Findings.save_entity entity)
  | .save_pivot pivot => do return .pivot (← Findings.save_pivot pivot)
  | .save_finding finding => do return .finding (← Findings.save_finding sha256 finding)

/-- The key by which calls save one record. -/
def natural : Call → Key
  | .save_entity entity => entity.natural
  | .save_pivot pivot => .pivot_value pivot.owner_id pivot.hunt_id pivot.pivot_type pivot.value
  | .save_finding finding => finding.natural sha256

/-- The links a call is to leave, given what it returns. -/
def links : Call → Saved → List Key
  | .save_entity entity, .entity saved => entity.evidence_ids.map (Key.link saved.entity_id)
  | _, _ => []

/-- A call has saved its record: it returns the id of the one row with its natural key, and its
links are there. -/
structure Persisted (call : Call) (saved : Saved) (rows : List Row) : Prop where
  record : ∃ row ∈ rows, holds (call.natural sha256) row = true ∧ holds saved.primary row = true
  links : ∀ key ∈ call.links saved, ∃ row ∈ rows, holds key row = true

end Call

/-! ### What a call meets -/

section Meets

variable {sha256 : FindingEnvelope → String} {β : Type} {post : β → List Row → Prop} {committed : List Row}

/-- A record is found, or inserted; what follows starts from there. -/
theorem meets_lookup_or_insert {natural primary : Key} {row : Row} {missing : Body Row (Option Row)}
    {f : Option Row → Body Row β}
    (hfound : ∀ later, committed ⊆ later → ∀ r ∈ later, holds natural r = true →
      (f (some r)).Meets schema post [] later)
    (hnew : ∀ later, committed ⊆ later → (f none).Meets schema post [row] later) :
    (lookup_or_insert natural primary row missing >>= f).Meets schema post [] committed := by
  intro later hlater
  refine ⟨fun r hr hholds => ?_, ?_⟩
  · rw [List.append_nil] at hr
    exact hfound later hlater r hr hholds
  · intro more hmore
    -- after a refusal there is another statement, so nothing is left to show
    exact ⟨hnew more (List.Subset.trans hlater hmore), nofun⟩

/-- Links are added to a record that has been found or inserted. -/
theorem meets_save_links {entity : ExtractedEntity} {entity_id : Uuid} {saved : Saved}
    {evidence_ids : List Uuid} {ins : List Row} {goal : Saved → List Row → Prop}
    (hgoal : ∀ rows, committed ++ ins ⊆ rows →
      (∀ evidence_id ∈ evidence_ids, ∃ r ∈ rows, holds (.link entity_id evidence_id) r = true) →
        goal saved rows) :
    (save_links entity entity_id evidence_ids >>= fun _ => (pure saved : Body Row Saved)).Meets
      schema goal ins committed := by
  induction evidence_ids generalizing ins committed with
  | nil => exact hgoal _ (List.Subset.refl _) (by simp)
  | cons evidence_id evidence_ids ih =>
      intro later hlater
      constructor
      · refine ih fun rows hrows hlinks => hgoal rows ?_ (List.forall_mem_cons.mpr ⟨?_, hlinks⟩)
        · intro r hr
          refine hrows ?_
          rw [List.mem_append, List.mem_append]
          exact (List.mem_append.mp hr).imp (hlater ·) Or.inl
        · have hmem : Row.link (entity.link entity_id evidence_id) ∈ rows := hrows (by simp)
          exact ⟨_, hmem, decide_eq_true (List.mem_singleton_self _)⟩
      · intro a hins hnext hconflict
        -- only a last link leaves nothing to do, and the row that is in its way is the link
        cases evidence_ids with
        | cons _ _ => cases hnext
        | nil =>
            obtain rfl := Body.pure.inj hnext
            obtain ⟨r, hr, key, hkey, hlink⟩ := hconflict
            obtain rfl := List.mem_singleton.mp hlink
            refine hgoal later ?_ (List.forall_mem_singleton.mpr ⟨r, hr, decide_eq_true hkey⟩)
            rw [hins, List.append_nil]
            exact hlater

/-- A saved entity persists with its links, wherever its row is. -/
theorem persisted_entity {entity saved : ExtractedEntity} {row : Row} {rows : List Row} (hrow : row ∈ rows)
    (hnatural : holds entity.natural row = true) (hprimary : holds (.entity_id saved.entity_id) row = true)
    (hlinks : ∀ evidence_id ∈ entity.evidence_ids,
      ∃ r ∈ rows, holds (.link saved.entity_id evidence_id) r = true) :
    (Call.save_entity entity).Persisted sha256 (.entity saved) rows where
  record := ⟨row, hrow, hnatural, hprimary⟩
  links key hkey := by
    obtain ⟨evidence_id, hmem, rfl⟩ := List.mem_map.mp hkey
    exact hlinks evidence_id hmem

theorem save_entity_meets (entity : ExtractedEntity) :
    ((Call.save_entity entity).body sha256).Meets schema ((Call.save_entity entity).Persisted sha256) []
      committed := by
  rw [Call.body, save_entity, Body.bind_assoc]
  refine meets_lookup_or_insert (fun later _ r hr hnatural => ?_) fun later _ => ?_
  · cases r
    case entity row =>
      rw [Body.bind_assoc]
      refine meets_save_links fun rows hrows hlinks => ?_
      exact persisted_entity (hrows (List.mem_append_left _ hr)) hnatural
        (decide_eq_true List.mem_cons_self) hlinks
    all_goals simp [holds, Row.keys, ExtractedEntity.natural] at hnatural
  · rw [Body.bind_assoc]
    refine meets_save_links fun rows hrows hlinks => ?_
    have hrow : Row.entity entity.values ∈ rows := hrows (by simp)
    have hnatural : holds entity.natural (.entity entity.values) = true :=
      decide_eq_true (List.mem_cons_of_mem _ List.mem_cons_self)
    exact persisted_entity hrow hnatural (decide_eq_true List.mem_cons_self) hlinks

theorem save_pivot_meets (pivot : Pivot) :
    ((Call.save_pivot pivot).body sha256).Meets schema ((Call.save_pivot pivot).Persisted sha256) []
      committed := by
  rw [Call.body, save_pivot, Body.bind_assoc]
  refine meets_lookup_or_insert (fun later _ r hr hnatural => ?_) fun later _ => ?_
  · cases r
    case pivot row =>
      have hmem : Row.pivot row ∈ later ++ [] := List.mem_append_left _ hr
      exact ⟨⟨_, hmem, hnatural, decide_eq_true List.mem_cons_self⟩, nofun⟩
    all_goals simp [holds, Row.keys] at hnatural
  · have hmem : Row.pivot pivot ∈ later ++ [Row.pivot pivot] := by simp
    exact ⟨⟨_, hmem, decide_eq_true (List.mem_cons_of_mem _ List.mem_cons_self),
      decide_eq_true List.mem_cons_self⟩, nofun⟩

theorem save_finding_meets (finding : FindingDraft) :
    ((Call.save_finding finding).body sha256).Meets schema ((Call.save_finding finding).Persisted sha256) []
      committed := by
  rw [Call.body, save_finding, Body.bind_assoc]
  refine meets_lookup_or_insert (fun later _ r hr hnatural => ?_) fun later _ => ?_
  · cases r
    case finding row =>
      have hmem : Row.finding row ∈ later ++ [] := List.mem_append_left _ hr
      exact ⟨⟨_, hmem, hnatural, decide_eq_true List.mem_cons_self⟩, nofun⟩
    all_goals simp [holds, Row.keys, FindingDraft.natural] at hnatural
  · have hmem : Row.finding ⟨finding, finding.computed_idempotency_key sha256⟩ ∈
        later ++ [Row.finding ⟨finding, finding.computed_idempotency_key sha256⟩] := by simp
    exact ⟨⟨_, hmem, decide_eq_true (List.mem_cons_of_mem _ List.mem_cons_self),
      decide_eq_true List.mem_cons_self⟩, nofun⟩

/-- Every call meets its postcondition from any rows on. -/
theorem call_meets (call : Call) (committed : List Row) :
    (call.body sha256).Meets schema (call.Persisted sha256) [] committed := by
  cases call with
  | save_entity entity => exact save_entity_meets entity
  | save_pivot pivot => exact save_pivot_meets pivot
  | save_finding finding => exact save_finding_meets finding

theorem lasting_persisted (call : Call) : Lasting (call.Persisted sha256) := by
  intro saved rows more hsub h
  obtain ⟨row, hrow, hkeys⟩ := h.record
  refine ⟨⟨row, hsub hrow, hkeys⟩, fun key hkey => ?_⟩
  obtain ⟨link, hlink, hholds⟩ := h.links key hkey
  exact ⟨link, hsub hlink, hholds⟩

end Meets

/-! ### Saving is idempotent -/

section Runs

variable {ι : Type} [DecidableEq ι] (sha256 : FindingEnvelope → String) (calls : ι → Call)

/-- What saving is to guarantee: every call that has ended has returned the id of the one record
with its natural key, and the links of every entity are there. -/
def Idempotent (s : System ι Row Saved) : Prop :=
  ∀ i result, s.status i = .finished result → ∃ saved, result = .ok saved ∧
    s.committed.countP (holds ((calls i).natural sha256)) = 1 ∧ (calls i).Persisted sha256 saved s.committed

/-- Rows that no call has touched yet. -/
structure Initial (s : System ι Row Saved) : Prop where
  apart : Apart schema s.committed
  waiting : ∀ i, s.status i = .waiting

/-- **Saving.** In a run whose inserts meet no taken key, except for the only link of an entity
that is saved already, saving is idempotent in every state. -/
theorem saving_idempotent {s₀ s : System ι Row Saved} (hinitial : Initial s₀)
    (hrun : Run schema (fun i => (calls i).body sha256) Clear s₀ s) : Idempotent sha256 calls s := by
  have hlasting : ∀ i, Lasting ((calls i).Persisted sha256) := fun i => lasting_persisted (calls i)
  have hintact := hrun.intact hlasting hinitial.apart hinitial.waiting fun i => call_meets (calls i) s₀.committed
  intro i result hfinished
  have hcall := hintact.calls i
  rw [hfinished] at hcall
  obtain ⟨saved, hresult, hpersisted⟩ := hcall
  obtain ⟨row, hrow, hnatural, -⟩ := hpersisted.record
  exact ⟨saved, hresult, hintact.apart.countP_eq_one hrow (of_decide_eq_true hnatural), hpersisted⟩

end Runs

/-! ### Two callers -/

/-- No rows, and no call begun. -/
def untouched : System Bool Row Saved where
  committed := []
  status := fun _ => .waiting

theorem initial_untouched : Initial untouched := ⟨List.Pairwise.nil, fun _ => rfl⟩

/-- A host, with one retained record. -/
def sampleEntity (entity_id : Uuid) : ExtractedEntity where
  entity_id := entity_id
  owner_id := "owner-1"
  hunt_id := "hunt-1"
  entity_type := .host
  value := "host-1"
  evidence_ids := ["evidence-1"]
  result_row_refs := []
  created_at_utc := 0

/-- Two calls that save the same host. -/
def entityCalls : Bool → Call
  | false => .save_entity (sampleEntity "entity-1")
  | true => .save_entity (sampleEntity "entity-2")

/-- The second call finds the entity, and its link is refused. -/
theorem replayed_entity_idempotent :
    ∃ s, s.status true = .finished (.ok (.entity (ExtractedEntity.from_row (sampleEntity "entity-1").values))) ∧
      Idempotent (fun _ => "digest") entityCalls s := by
  have h₀ : Run schema (fun i => (entityCalls i).body fun _ => "digest") Clear untouched untouched := .refl
  have h₁ := h₀.step (Step.begun (i := false) rfl) trivial
  have h₂ := h₁.step (Step.missing (i := false) rfl (by decide)) trivial
  have h₃ := h₂.step (Step.inserted (i := false) rfl rfl (by decide) (by decide)) trivial
  have h₄ := h₃.step (Step.inserted (i := false) rfl rfl (by decide) (by decide)) trivial
  have h₅ := h₄.step (Step.committed (i := false) rfl) trivial
  have h₆ := h₅.step (Step.begun (i := true) rfl) trivial
  have h₇ := h₆.step (Step.found (i := true) rfl List.mem_cons_self (by decide)) trivial
  have h₈ := h₇.step (Step.refused (i := true) rfl (List.mem_cons_of_mem _ List.mem_cons_self) (by decide))
    ⟨_, _, _, rfl, rfl⟩
  have h₉ := h₈.step (Step.rolled_back (i := true) rfl) trivial
  exact ⟨_, rfl, saving_idempotent _ _ initial_untouched h₉⟩

/-- A finding with its own key. -/
def sampleFinding (finding_id : Uuid) : FindingDraft where
  finding_id := finding_id
  owner_id := "owner-1"
  hunt_id := "hunt-1"
  title := "Logon"
  classification := .supported_observation
  statement := "A logon was recorded."
  confidence := .low
  evidence_ids := ["evidence-1"]
  query_ids := []
  context_refs := []
  inference := "unknown"
  limitations := []
  created_at_utc := 0
  idempotency_key := some "key-1"

/-- Two calls that save the same finding. -/
def findingCalls : Bool → Call
  | false => .save_finding (sampleFinding "finding-1")
  | true => .save_finding (sampleFinding "finding-2")

/-- Both calls look the finding up before either has inserted it. The insert of the second is
refused, and so is its second read: the call raises. -/
theorem contested_finding_raises :
    ∃ s, Run schema (fun i => (findingCalls i).body fun _ => "digest") (fun _ _ => True) untouched s ∧
      s.status true = .finished (.error .in_failed_transaction) ∧
      ¬Idempotent (fun _ => "digest") findingCalls s := by
  have h₀ : Run schema (fun i => (findingCalls i).body fun _ => "digest") (fun _ _ => True) untouched
    untouched := .refl
  have h₁ := h₀.step (Step.begun (i := false) rfl) trivial
  have h₂ := h₁.step (Step.begun (i := true) rfl) trivial
  have h₃ := h₂.step (Step.missing (i := false) rfl (by decide)) trivial
  have h₄ := h₃.step (Step.missing (i := true) rfl (by decide)) trivial
  have h₅ := h₄.step (Step.inserted (i := false) rfl rfl (by decide) (by decide)) trivial
  have h₆ := h₅.step (Step.committed (i := false) rfl) trivial
  have h₇ := h₆.step (Step.refused (i := true) rfl List.mem_cons_self (by decide)) trivial
  have h₈ := h₇.step (Step.select_failed (i := true) rfl) trivial
  have h₉ := h₈.step (Step.raised (i := true) rfl) trivial
  refine ⟨_, h₉, rfl, fun hidempotent => ?_⟩
  obtain ⟨saved, hsaved, -⟩ := hidempotent true _ rfl
  cases hsaved

end Findings

end ThreatHunting
