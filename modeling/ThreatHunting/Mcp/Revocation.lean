import ThreatHunting.Mcp.Bindings

/-!
# ThreatHunting.Mcp.Revocation

Two of the revocations that match are read, in no order, and those dated after `now` are passed
over. Two of those can hide one that is in effect; a single one cannot.
-/

namespace ThreatHunting

namespace Mcp

open Fallible

variable {rt : Runtime} {limit : Limit} {db : Database} {caller : Caller} {request : Request} {now : Instant}

/-- The revocations that match a request, if revocations are kept. -/
def revocations (db : Database) (subject : Subject) : List Row :=
  ((db.table revocationTables).map (matching_revocations · subject)).getD []

/-- A revocation dated after `now`. -/
def later (rt : Runtime) (now : Instant) (row : Row) : Bool := !inEffect rt now row

/-- Where revocations are kept, some column says what they revoke. -/
def RevocationSchema (db : Database) (subject : Subject) : Prop :=
  ∀ table, db.table revocationTables = some table → revocation_conditions table subject ≠ []

theorem check_revocation_eq_ok {subject : Subject} :
    check_revocation rt limit (db.table revocationTables) subject now = .ok () ↔
      RevocationSchema db subject ∧ ∀ row ∈ limit.pick 2 (revocations db subject), later rt now row = true := by
  unfold RevocationSchema revocations check_revocation
  cases htable : db.table revocationTables with
  | none =>
      have none_read : limit.pick 2 [] = [] := List.length_eq_zero_iff.mp (by simp [limit.length])
      simp [none_read]
  | some table =>
      simp [bind_eq_ok, require_eq_ok, later]

/-- Some reading of two rows passes exactly if two are dated later, or all are. -/
theorem reads_later {rows : List Row} (h : ∀ row ∈ limit.pick 2 rows, later rt now row = true) :
    min 2 rows.length ≤ rows.countP (later rt now) := by
  rw [← limit.length, ← List.countP_eq_length.mpr h]
  exact (limit.subperm 2 rows).countP_le _

/-- One row in effect is read if at most one is dated later. -/
theorem none_in_effect {rows : List Row} (h : ∀ row ∈ limit.pick 2 rows, later rt now row = true)
    (hone : rows.countP (later rt now) ≤ 1) : ∀ row ∈ rows, later rt now row = true := by
  have hread := reads_later h
  have hle : rows.countP (later rt now) ≤ rows.length := List.countP_le_length
  refine List.countP_eq_length.mp ?_
  omega

/-! ### The other checks -/

/-- Every check passes but the one of the revocations' dates. -/
def OtherChecksPass (rt : Runtime) (limit : Limit) (db : Database) (caller : Caller) (request : Request)
    (now : Instant) (rows : Rows) : Prop :=
  ∃ who bound capabilities version, check_caller rt caller request = .ok who ∧ load rt db request = .ok rows ∧
    check_bindings rt request rows ((who.2.filter Value.truthy).map rt.text) now = .ok bound ∧
    capabilities_of rt limit db request = .ok capabilities ∧
    plan_version_of rt bound.plan_version = .ok version ∧ RevocationSchema db (subject_of rt request rows)

/-- A context is returned exactly when the other checks pass and the revocations read are dated later. -/
theorem authorize_iff :
    (∃ ctx, authorize_mcp_tool_request rt limit db caller request now = .ok ctx) ↔
      ∃ rows, OtherChecksPass rt limit db caller request now rows ∧
        ∀ row ∈ limit.pick 2 (revocations db (subject_of rt request rows)), later rt now row = true := by
  simp only [authorize_mcp_tool_request, contextOf, bind_eq_ok]
  constructor
  · rintro ⟨ctx, who, hwho, rows, hload, bound, hbound, _, hrevoked, capabilities, hcap, version, hversion, _⟩
    obtain ⟨hschema, hlater⟩ := check_revocation_eq_ok.mp hrevoked
    exact ⟨rows, ⟨who, bound, capabilities, version, hwho, hload, hbound, hcap, hversion, hschema⟩, hlater⟩
  · rintro ⟨rows, ⟨who, bound, capabilities, version, hwho, hload, hbound, hcap, hversion, hschema⟩, hlater⟩
    exact ⟨_, who, hwho, rows, hload, bound, hbound, _, check_revocation_eq_ok.mpr ⟨hschema, hlater⟩,
      capabilities, hcap, version, hversion, rfl⟩

/-- The rows meeting `first` are returned first where two rows are asked for. -/
def Limit.preferringTwo (limit : Limit) (first : Row → Bool) : Limit where
  pick n rows := if n = 2 then (Limit.preferring first).pick n rows else limit.pick n rows
  subperm n rows := by
    split
    · exact (Limit.preferring first).subperm n rows
    · exact limit.subperm n rows
  length n rows := by
    split
    · exact (Limit.preferring first).length n rows
    · exact limit.length n rows

/-- The capabilities do not depend on which two rows are returned. -/
theorem capabilities_of_preferringTwo (first : Row → Bool) :
    capabilities_of rt (limit.preferringTwo first) db request = capabilities_of rt limit db request := rfl

/-- Two rows meeting `first` are the two rows returned. -/
theorem preferringTwo_pick {first : Row → Bool} {rows : List Row} (h : 2 ≤ rows.countP first) {row : Row}
    (hrow : row ∈ (limit.preferringTwo first).pick 2 rows) : first row = true := by
  have hlen : 2 ≤ (rows.filter first).length := by rwa [← List.countP_eq_length_filter]
  have hpick : (limit.preferringTwo first).pick 2 rows = (rows.filter first).take 2 := by
    simp only [Limit.preferringTwo, Limit.preferring, if_true]
    rw [List.take_append_of_le_length hlen]
  rw [hpick] at hrow
  exact (List.mem_filter.mp (List.mem_of_mem_take hrow)).2

/-- No request is authorized while a revocation that matches it is in effect, whichever rows the
database returns, exactly where at most one matching revocation is dated later. -/
theorem revocation_complete_iff (rt : Runtime) (db : Database) (caller : Caller) (request : Request)
    (now : Instant) :
    (∀ limit ctx rows, authorize_mcp_tool_request rt limit db caller request now = .ok ctx →
        load rt db request = .ok rows →
        ∀ row ∈ revocations db (subject_of rt request rows), inEffect rt now row = false) ↔
      ∀ limit rows, OtherChecksPass rt limit db caller request now rows →
        (∀ row ∈ revocations db (subject_of rt request rows), inEffect rt now row = false) ∨
          (revocations db (subject_of rt request rows)).countP (later rt now) ≤ 1 := by
  constructor
  · intro h limit rows hothers
    by_cases hone : (revocations db (subject_of rt request rows)).countP (later rt now) ≤ 1
    · exact .inr hone
    · -- some choice of two rows reads later ones only
      obtain ⟨who, bound, capabilities, version, hwho, hload, hbound, hcap, hrest⟩ := hothers
      have hothers' : OtherChecksPass rt (limit.preferringTwo (later rt now)) db caller request now rows :=
        ⟨who, bound, capabilities, version, hwho, hload, hbound,
          (capabilities_of_preferringTwo _).trans hcap, hrest⟩
      obtain ⟨ctx, hctx⟩ := authorize_iff.mpr
        ⟨rows, hothers', fun row hrow => preferringTwo_pick (by omega) hrow⟩
      exact .inl (h _ ctx rows hctx hload)
  · intro h limit ctx rows hctx hload
    obtain ⟨rows', hothers, hlater⟩ := authorize_iff.mp ⟨ctx, hctx⟩
    have hsame : rows' = rows := by
      obtain ⟨_, _, _, _, _, hload', _⟩ := hothers
      rw [hload] at hload'
      exact (Except.ok.inj hload').symm
    subst hsame
    obtain hnone | hone := h limit rows' hothers
    · exact hnone
    · intro row hrow
      simpa [later] using none_in_effect hlater hone row hrow

/-! ### Two later revocations -/

/-- A revocation of the sample request. -/
def sampleRevocation (revoked_at_utc : Instant) : Row :=
  [("revocation_id", .text "r"), ("deployment_scope_id", .text "customer-a"), ("execution_id", .text "execution"),
    ("hunt_id", .text "hunt"), ("approval_id", .text "approval"), ("revoked_at_utc", .time revoked_at_utc)]

/-- Two revocations dated later hide one that is in effect. -/
theorem later_revocations_hide_one :
    let db := sampleDatabase [("plan_sha256", .text (sampleHash 'a'))] []
      [sampleRevocation 110, sampleRevocation 120, sampleRevocation 90]
    let request := sampleRequest (sampleHash 'a')
    ∃ ctx rows, authorize_mcp_tool_request sampleRuntime sampleLimit db sampleCaller request 100 = .ok ctx ∧
      load sampleRuntime db request = .ok rows ∧
      ∃ row ∈ revocations db (subject_of sampleRuntime request rows), inEffect sampleRuntime 100 row = true := by
  intro db request
  have allowed :
      (authorize_mcp_tool_request sampleRuntime sampleLimit db sampleCaller request 100).toBool = true := by
    rfl
  have hidden : (load sampleRuntime db request).toOption.map (fun rows =>
      (revocations db (subject_of sampleRuntime request rows)).any (inEffect sampleRuntime 100)) = some true := by
    rfl
  obtain ⟨ctx, hctx⟩ := exists_of_toBool allowed
  obtain ⟨rows, hrows, hany⟩ := Option.map_eq_some_iff.mp hidden
  exact ⟨ctx, rows, hctx, toOption_eq_some.mp hrows, List.any_eq_true.mp hany⟩

end Mcp

end ThreatHunting
