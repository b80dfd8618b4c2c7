import ThreatHunting.Mcp.Bindings

/-!
# ThreatHunting.Mcp.Capabilities

A semantic request needs exactly one usable capability binding, and no ambiguous one. A hundred rows
of the bindings are read, in no order, before any of them is looked at, so that in a larger table the
one that counts may be left out.
-/

namespace ThreatHunting

namespace Mcp

open Fallible

/-! ### Reading some of the rows

Of the rows, some are `bad` and some are `good`; what is asked for is one good row and no bad one. -/

section Reading

variable {bad good : Row → Bool} {rows : List Row}

/-- One row is good, and none is bad. -/
def ExactlyOne (bad good : Row → Bool) (rows : List Row) : Prop := rows.countP bad = 0 ∧ rows.countP good = 1

/-- Good and not bad. -/
def sound (bad good : Row → Bool) (row : Row) : Bool := good row && !bad row

/-- Neither good nor bad. -/
def neutral (bad good : Row → Bool) (row : Row) : Bool := !good row && !bad row

theorem ExactlyOne.sound (h : ExactlyOne bad good rows) : rows.countP (sound bad good) = 1 := by
  rw [← h.2]
  refine List.countP_congr fun row hrow => ?_
  simp [Mcp.sound, Bool.eq_false_iff.mpr (List.countP_eq_zero.mp h.1 row hrow)]

theorem ExactlyOne.length (h : ExactlyOne bad good rows) : rows.length = 1 + rows.countP (neutral bad good) := by
  have hneutral : rows.countP (neutral bad good) = rows.countP fun row => !good row := by
    refine List.countP_congr fun row hrow => ?_
    simp [neutral, Bool.eq_false_iff.mpr (List.countP_eq_zero.mp h.1 row hrow)]
  rw [hneutral, List.length_eq_countP_add_countP good, h.2]
  simp

theorem ExactlyOne.perm {rows' : List Row} (h : rows.Perm rows') : ExactlyOne bad good rows ↔ ExactlyOne bad good rows' := by
  rw [ExactlyOne, ExactlyOne, h.countP_eq, h.countP_eq]

/-- Whichever rows are read, of so many, they answer for all of them. -/
def Readable (bad good : Row → Bool) (most : Nat) (rows : List Row) : Prop :=
  rows.length ≤ most ∨ rows.countP (sound bad good) = 0 ∨ rows.countP (neutral bad good) + 1 < most

theorem exactlyOne_pick_iff {limit : Limit} {most : Nat} (h : Readable bad good most rows) :
    ExactlyOne bad good (limit.pick most rows) ↔ ExactlyOne bad good rows := by
  have hsub := limit.subperm most rows
  have hlength := limit.length most rows
  rcases Nat.lt_or_ge most rows.length with hlarge | hsmall
  · -- neither the rows read nor the rows of the table have exactly one
    have hnone : ¬ExactlyOne bad good (limit.pick most rows) ∧ ¬ExactlyOne bad good rows := by
      rcases h.resolve_left (by omega) with hsound | hneutral
      · refine ⟨fun hone => ?_, fun hone => by exact absurd (hsound.symm.trans hone.sound) (by decide)⟩
        have := hsub.countP_le (sound bad good)
        have := hone.sound
        omega
      · have := hsub.countP_le (neutral bad good)
        exact ⟨fun hone => by have := hone.length; omega, fun hone => by have := hone.length; omega⟩
    simp [hnone]
  · have hall : (limit.pick most rows).Perm rows := hsub.perm_of_length_le (by omega)
    exact ExactlyOne.perm hall

/-- The rows are returned in some other order. -/
def Limit.arranging (arrange : List Row → List Row) (h : ∀ rows, (arrange rows).Perm rows) : Limit where
  pick n rows := (arrange rows).take n
  subperm n rows := (List.take_sublist n _).subperm.trans (h rows).subperm
  length n rows := by rw [List.length_take, (h rows).length_eq]

/-- One row that is `first`, then those that are `then_`, then the others. -/
def oneThen (first then_ : Row → Bool) (rows : List Row) : List Row :=
  let firsts := rows.filter first
  let others := rows.filter (!first ·)
  firsts.take 1 ++ (others.filter then_ ++ (others.filter (!then_ ·) ++ firsts.drop 1))

theorem oneThen_perm (first then_ : Row → Bool) (rows : List Row) : (oneThen first then_ rows).Perm rows := by
  have hfirst := List.filter_append_perm first rows
  have hothers := List.filter_append_perm then_ (rows.filter (!first ·))
  have hlast : (rows.filter (!first ·)).filter then_ ++
      ((rows.filter (!first ·)).filter (!then_ ·) ++ (rows.filter first).drop 1) |>.Perm
        ((rows.filter first).drop 1 ++ rows.filter (!first ·)) := by
    rw [← List.append_assoc]
    exact (hothers.append_right _).trans List.perm_append_comm
  have hsplit : (rows.filter first).take 1 ++ ((rows.filter first).drop 1 ++ rows.filter (!first ·)) =
      rows.filter first ++ rows.filter (!first ·) := by
    rw [← List.append_assoc, List.take_append_drop]
  exact (hlast.append_left _).trans (hsplit ▸ hfirst)

theorem neutral_eq_filter :
    (rows.filter fun row => !sound bad good row).filter (neutral bad good) = rows.filter (neutral bad good) := by
  rw [List.filter_filter]
  refine List.filter_congr fun row _ => ?_
  cases hgood : good row <;> simp [neutral, sound, hgood]

/-- One sound row and neutral ones are exactly one. -/
theorem exactlyOne_cons {row : Row} (hrow : sound bad good row = true) (hrows : ∀ row ∈ rows, neutral bad good row = true) :
    ExactlyOne bad good (row :: rows) := by
  simp only [sound, neutral, Bool.and_eq_true, Bool.not_eq_true'] at hrow hrows
  constructor
  · rw [List.countP_cons_of_neg (by simp [hrow]), List.countP_eq_zero]
    exact fun row hrow => by simp [(hrows row hrow).2]
  · rw [List.countP_cons_of_pos hrow.1, Nat.add_eq_right, List.countP_eq_zero]
    exact fun row hrow => by simp [(hrows row hrow).1]

/-- Otherwise the rows that are read need not answer for all of them. -/
theorem exists_limit_of_not_readable {most : Nat} (hmost : 0 < most) (h : ¬Readable bad good most rows) :
    ∃ limit : Limit, ¬(ExactlyOne bad good (limit.pick most rows) ↔ ExactlyOne bad good rows) := by
  simp only [Readable, not_or, not_le, not_lt] at h
  obtain ⟨hlarge, hsound, hneutral⟩ := h
  by_cases hone : ExactlyOne bad good rows
  · -- only neutral rows are read
    refine ⟨Limit.preferring (neutral bad good), fun hiff => ?_⟩
    have hcount := hone.length
    have hpick : (Limit.preferring (neutral bad good)).pick most rows = (rows.filter (neutral bad good)).take most :=
      List.take_append_of_le_length (by rw [← List.countP_eq_length_filter]; omega)
    have hread := (hiff.mpr hone).sound
    obtain ⟨row, hrow, hgood⟩ := List.countP_pos_iff.mp (hread.symm ▸ Nat.one_pos)
    have hmem := (List.mem_filter.mp (List.mem_of_mem_take (hpick ▸ hrow))).2
    simp only [sound, neutral, Bool.and_eq_true, Bool.not_eq_true'] at hgood hmem
    simp [hmem.1] at hgood
  · -- one sound row is read, with neutral ones
    let limit := Limit.arranging (oneThen (sound bad good) (neutral bad good)) (oneThen_perm _ _)
    refine ⟨limit, fun hiff => hone (hiff.mp ?_)⟩
    obtain ⟨row, others, hfirst⟩ : ∃ row others, rows.filter (sound bad good) = row :: others :=
      List.exists_cons_of_ne_nil fun hnil => hsound (by rw [List.countP_eq_length_filter, hnil, List.length_nil])
    obtain ⟨n, rfl⟩ : ∃ n, most = n + 1 := ⟨most - 1, by omega⟩
    have hpick : limit.pick (n + 1) rows = row :: (rows.filter (neutral bad good)).take n := by
      show (oneThen _ _ rows).take (n + 1) = _
      rw [oneThen, neutral_eq_filter, hfirst, List.take_succ_cons, List.take_zero, List.cons_append, List.nil_append,
        List.take_succ_cons, List.take_append_of_le_length (by rw [← List.countP_eq_length_filter]; omega)]
    rw [hpick]
    have hrow : row ∈ rows.filter (sound bad good) := hfirst ▸ List.mem_cons_self
    exact exactlyOne_cons (List.mem_filter.mp hrow).2 fun row hrow => (List.mem_filter.mp (List.mem_of_mem_take hrow)).2

end Reading

/-! ### Resolution -/

section Resolution

variable (rt : Runtime) (limit : Limit) (db : Database) (request : Request) (hunt_id discovery_id : String)

/-- The tables of capability bindings. -/
def capabilityTables : List String :=
  ["capability_bindings", "hunt_capability_bindings", "capabilities", "telemetry_capabilities"]

/-- The capability a request asks for. -/
def requestedOf : Option Value :=
  let names := ["capability_id", "capability", "capability_name", "required_capability"]
  if request.lacks names then request.value ["tool", "operation"] else request.value names

/-- A binding of the hunt, or of any, of the discovery, or of any, and of the capability that is asked for. -/
def Matches (row : Row) : Bool := requestedCapability rt (requestedOf request) hunt_id discovery_id row

/-- A matching binding that is ambiguous. -/
def ambiguousMatch (row : Row) : Bool :=
  Matches rt request hunt_id discovery_id row && (row.value ["ambiguous", "is_ambiguous"]).any Value.truthy

/-- A matching binding that is usable. -/
def usableMatch (row : Row) : Bool := Matches rt request hunt_id discovery_id row && usableCapability rt row

/-- The first part of `_semantic_capabilities`: a selected and pinned skill, as it is asserted. -/
def selected_skill : Except Failure Unit := do
  let hunt := ("hunt_id", some (Value.text hunt_id))
  let selections := db.table ["hunt_skill_selections", "skill_selections", "plan_skill_selections"]
  let selection ← required (selections.bind fun table =>
    table.lookup [hunt, ("discovery_snapshot_id", some (.text discovery_id))] <|> table.lookup [hunt])
    .semantic_skill_required "selected pinned skill missing"
  let status := ((selection.value ["selection_status", "status"]).map rt.lower).getD []
  let unpinned := match selection.value ["pinned", "is_pinned", "selected"] with
    | some (.bool false) => true
    | _ => false
  require (oneOf ["selected", "pinned", "approved", "active"] status && !unpinned) .semantic_skill_required
    "selected pinned skill missing"
  check_skill rt request selection "skill_id" ["skill_id", "primary_skill_id"]
  check_skill rt request selection "skill_version" ["skill_version", "version"]
  check_skill rt request selection "skill_sha256" ["skill_sha256", "content_sha256", "skill_hash"]

theorem exactlyOne_iff (picked : List Row) :
    ExactlyOne (ambiguousMatch rt request hunt_id discovery_id) (usableMatch rt request hunt_id discovery_id) picked ↔
      ((picked.filter (Matches rt request hunt_id discovery_id)).all fun row =>
          !(row.value ["ambiguous", "is_ambiguous"]).any Value.truthy) = true ∧
        ((picked.filter (Matches rt request hunt_id discovery_id)).filter (usableCapability rt)).length = 1 := by
  have husable : (picked.filter (Matches rt request hunt_id discovery_id)).filter (usableCapability rt) =
      picked.filter (usableMatch rt request hunt_id discovery_id) := by
    rw [List.filter_filter]
    exact List.filter_congr fun row _ => Bool.and_comm _ _
  rw [ExactlyOne, husable, ← List.countP_eq_length_filter, List.countP_eq_zero]
  refine and_congr_left fun _ => ?_
  simp [ambiguousMatch, List.all_eq_true, or_iff_not_imp_left]

/-- A capability is resolved exactly if a skill is selected and the rows that are read have exactly one usable match
and no ambiguous one. -/
theorem semantic_capabilities_iff :
    (∃ rows, semantic_capabilities rt limit db request hunt_id discovery_id = .ok rows) ↔
      selected_skill rt db request hunt_id discovery_id = .ok () ∧ ∃ table, db.table capabilityTables = some table ∧
        ExactlyOne (ambiguousMatch rt request hunt_id discovery_id) (usableMatch rt request hunt_id discovery_id)
          (limit.pick 100 table.rows) := by
  have hsplit : semantic_capabilities rt limit db request hunt_id discovery_id =
      (selected_skill rt db request hunt_id discovery_id >>= fun _ => do
        let table ← required (db.table capabilityTables) .semantic_capability_missing "usable capability missing"
        let candidates := (limit.pick 100 table.rows).filter (Matches rt request hunt_id discovery_id)
        require (candidates.all fun row => !(row.value ["ambiguous", "is_ambiguous"]).any Value.truthy)
          .semantic_capability_ambiguous "capability mapping ambiguous"
        let rows := candidates.filter (usableCapability rt)
        require (rows.length ≤ 1) .semantic_capability_ambiguous "capability mapping ambiguous"
        require (!rows.isEmpty) .semantic_capability_missing "usable capability missing"
        pure rows) := by
    simp only [semantic_capabilities, selected_skill, bind_assoc]
    rfl
  simp only [hsplit, bind_eq_ok, required_eq_ok, require_eq_ok, exactlyOne_iff]
  constructor
  · rintro ⟨rows, _, hskill, table, htable, _, hall, _, hle, _, hsome, -⟩
    refine ⟨hskill, table, htable, hall, ?_⟩
    have hpos := List.length_pos_iff.mpr (List.isEmpty_eq_false_iff.mp (Bool.not_eq_true' _ ▸ hsome))
    have hle := of_decide_eq_true hle
    omega
  · rintro ⟨hskill, table, htable, hall, hlength⟩
    refine ⟨_, (), hskill, table, htable, (), hall, (), decide_eq_true hlength.le, (), ?_, rfl⟩
    rw [Bool.not_eq_true', List.isEmpty_eq_false_iff, ← List.length_pos_iff]
    omega

/-- A skill is selected, and the bindings have exactly one usable match and no ambiguous one. -/
def Resolvable : Prop :=
  selected_skill rt db request hunt_id discovery_id = .ok () ∧ ∃ table, db.table capabilityTables = some table ∧
    ExactlyOne (ambiguousMatch rt request hunt_id discovery_id) (usableMatch rt request hunt_id discovery_id) table.rows

/-- **Resolution.** Whichever rows the database returns, a capability is resolved exactly if the bindings have one,
where the table has no more than a hundred rows, or no usable match that is not ambiguous, or too few other rows to
fill a reading with. -/
theorem resolution_exact_iff :
    (∀ limit, (∃ rows, semantic_capabilities rt limit db request hunt_id discovery_id = .ok rows) ↔
        Resolvable rt db request hunt_id discovery_id) ↔
      (selected_skill rt db request hunt_id discovery_id = .ok () → ∀ table, db.table capabilityTables = some table →
        Readable (ambiguousMatch rt request hunt_id discovery_id) (usableMatch rt request hunt_id discovery_id) 100
          table.rows) := by
  constructor
  · intro h hskill table htable
    by_contra hnot
    obtain ⟨limit, hlimit⟩ := exists_limit_of_not_readable (by decide) hnot
    refine hlimit ?_
    have hthis := (semantic_capabilities_iff rt limit db request hunt_id discovery_id).symm.trans (h limit)
    simpa only [Resolvable, hskill, htable, true_and, Option.some.injEq, exists_eq_left'] using hthis
  · intro h limit
    rw [semantic_capabilities_iff, Resolvable]
    refine and_congr_right fun hskill => exists_congr fun table => and_congr_right fun htable => ?_
    exact exactlyOne_pick_iff (h hskill table htable)

end Resolution

/-! ### A binding that is not read -/

/-- A selected skill, and a hundred bindings of another capability before the usable one. -/
def crowdedDatabase : Database :=
  let hunt : String × Value := ("hunt_id", .text "hunt")
  [("hunt_skill_selections", sampleTable [[hunt, ("status", .text "selected")]]),
    ("capability_bindings", sampleTable (List.replicate 100 [hunt, ("capability_id", .text "dns")] ++
      [[hunt, ("capability_id", .text "process"), ("status", .text "usable")]]))]

/-- A request for the last of them. -/
def capabilityRequest : Request where
  values := [("capability_id", .text "process")]
  sections := []

theorem binding_not_read :
    Resolvable sampleRuntime crowdedDatabase capabilityRequest "hunt" "discovery" ∧
      semantic_capabilities sampleRuntime sampleLimit crowdedDatabase capabilityRequest "hunt" "discovery" =
        .error (.denied .semantic_capability_missing "usable capability missing") := by
  refine ⟨⟨rfl, _, rfl, ?_, ?_⟩, rfl⟩
  · decide +kernel
  · decide +kernel

end Mcp

end ThreatHunting
