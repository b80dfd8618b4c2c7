import ThreatHunting.Services.Transitions

/-!
# ThreatHunting.Services.Versions

Plan versions as an optimistic lock. `PlanStep` says what a lawful event of a production
deployment does to the columns a plan is stored in. A version number determines the plan's
identities and its snapshot, and it determines the plan itself except where a rejection
edits the plan without a new version. Approvals are bound to what they were given for as
long as no plan comes back to review after such an edit.
-/

namespace ThreatHunting

open Store Op

namespace WorkflowService

/-! ### What an event does to a stored plan -/

/-- A process of a production deployment. -/
def Production (service : Service) : Prop := service.local_demo = false

/-- Does the event store a plan under a new version? -/
def mints (hunt_id : Uuid) : Event → Bool
  | .committed (.update _ _ id _ values) _ _ => id = hunt_id && values.plan_version.isSome
  | _ => false

/-- Is the event a rejection of the hunt's plan? -/
def rejects (hunt_id : Uuid) : Event → Bool
  | .committed (.update .reject _ id _ _) _ _ => id = hunt_id
  | _ => false

/-- Is the event a revision request stored into the hunt's plan? -/
def revises (hunt_id : Uuid) : Event → Bool
  | .committed (.update .revise_plan _ id _ _) _ _ => id = hunt_id
  | _ => false

/-- Is the event the last step of `discover`, which hands the plan to review? -/
def handsOver (hunt_id : Uuid) : Event → Bool
  | .committed (.update .discover _ id _ values) _ _ =>
      id = hunt_id && values.state = some .awaiting_plan_review
  | _ => false

/-- The states before the hunt has a plan. -/
def unplanned (s : HuntState) : Bool := s = .created || s = .discovering

/-- The states an approved hunt goes through. -/
def underApproval (s : HuntState) : Bool :=
  s ∈ [HuntState.approved, .queued, .running, .synthesizing, .report_draft]

/-- The rows store the same plan, with the same version, snapshot and approval. -/
def SamePlan (row row' : HuntRow) : Prop :=
  row'.hunt_id = row.hunt_id ∧ row'.plan = row.plan ∧ row'.plan_version = row.plan_version ∧
    row'.discovery_snapshot = row.discovery_snapshot ∧ row'.approval = row.approval

/-- What an event does to the plan of one hunt. -/
inductive PlanStep (helpers : Helpers) (s₀ : Database) (past : List Event) (hunt_id : Uuid) (e : Event) :
    Option HuntRow → Option HuntRow → Prop
  | absent : PlanStep helpers s₀ past hunt_id e none none
  | created {row} : row.Blank → row.hunt_id = hunt_id → PlanStep helpers s₀ past hunt_id e none (some row)
  | kept {row row'} : SamePlan row row' → mints hunt_id e = false → rejects hunt_id e = false →
      (unplanned row'.state = true → unplanned row.state = true) →
      (row'.state = .awaiting_plan_review → row.state = .awaiting_plan_review) →
      (underApproval row'.state = true → underApproval row.state = true) →
      PlanStep helpers s₀ past hunt_id e (some row) (some row')
  | handed {row row'} : SamePlan row row' → mints hunt_id e = false → rejects hunt_id e = false →
      handsOver hunt_id e = true → row'.state = .awaiting_plan_review →
      PlanStep helpers s₀ past hunt_id e (some row) (some row')
  | drafted {row seen plan snapshot at_} : mints hunt_id e = true → row.state = .discovering →
      Seen s₀ past hunt_id seen → DraftBound seen plan snapshot →
      PlanStep helpers s₀ past hunt_id e (some row) (some (Values.set
        { state := some .plan_draft, discovery_snapshot := some snapshot, plan := some plan
          plan_version := some 1, updated_at_utc := at_ } row))
  | edited {row seen version edited at_} : mints hunt_id e = true → row.plan_version = some version →
      Seen s₀ past hunt_id seen → seen.plan_version = some version → EditBound seen version edited →
      PlanStep helpers s₀ past hunt_id e (some row) (some (Values.set
        { state := some .awaiting_plan_review, plan := some edited.plan
          plan_version := some (version + 1), approval := some none
          discovery_snapshot := edited.snapshot, updated_at_utc := at_ } row))
  | revised {row seen version plan note at_} : mints hunt_id e = true → revises hunt_id e = true →
      row.plan_version = some version → Seen s₀ past hunt_id seen → seen.plan_version = some version →
      seen.plan = some plan →
      PlanStep helpers s₀ past hunt_id e (some row) (some (Values.set
        { state := some .awaiting_plan_review, plan := some (annotate plan note)
          plan_version := some (version + 1), approval := some none, updated_at_utc := at_ } row))
  | approved {row seen version plan approval at_} : mints hunt_id e = false → rejects hunt_id e = false →
      row.state = .awaiting_plan_review → row.plan_version = some version → Seen s₀ past hunt_id seen →
      seen.plan_version = some version → seen.plan = some plan →
      approval.plan_version = some version → approval.plan_sha256 = helpers.plan_sha256 plan →
      approval.execution_config_snapshot_id =
        (seen.discovery_snapshot.bind (·.execution_config_snapshot)).map (·.snapshot_id) →
      approval.execution_config_sha256 =
        (seen.discovery_snapshot.bind (·.execution_config_snapshot)).map (·.sha256) →
      PlanStep helpers s₀ past hunt_id e (some row) (some (Values.set
        { state := some .approved, approval := some (some approval), updated_at_utc := at_ } row))
  | rejected {row seen version plan note at_} : mints hunt_id e = false → rejects hunt_id e = true →
      row.plan_version = some version → Seen s₀ past hunt_id seen →
      seen.plan_version = some version → seen.plan = some plan →
      PlanStep helpers s₀ past hunt_id e (some row) (some (Values.set
        { state := some .plan_draft, plan := some (annotate plan note), approval := some none
          updated_at_utc := at_ } row))

section

variable {helpers : Helpers} {s₀ : Database} {past : List Event} {hunt_id : Uuid}

theorem SamePlan.refl (row : HuntRow) : SamePlan row row := ⟨rfl, rfl, rfl, rfl, rfl⟩

/-- Values that are bare keep the plan. -/
theorem SamePlan.of_bare {values : Values} {row : HuntRow} (h : values.Bare) :
    SamePlan row (values.set row) := by
  obtain ⟨hplan, hversion, hsnapshot, happroval⟩ := h
  simp [SamePlan, Values.set, hplan, hversion, hsnapshot, happroval]

/-- An execution neither returns to plan review nor to what comes before it. -/
theorem edge_of_execution {s s' : HuntState} (hs : s = .queued ∨ s = .running ∨ s = .synthesizing)
    (he : HuntState.Edge s s') :
    unplanned s' = false ∧ s' ≠ .awaiting_plan_review ∧ underApproval s = true := by
  rcases hs with rfl | rfl | rfl <;> cases s' <;> first | exact absurd he (by decide) | decide

/-- What a lawful update does to the plan of its hunt. -/
theorem Lawful.planStep {writer : Writer} {owner_id : String} {expect : Expect} {values : Values}
    {row : HuntRow} {before after : Database}
    (hw : Lawful helpers Production s₀ past writer hunt_id expect values)
    (hm : expect.matches row = true) :
    PlanStep helpers s₀ past hunt_id
      (.committed (S := signature) (Transaction.update writer owner_id hunt_id expect values) before after)
      (some row) (some (values.set row)) := by
  cases hw with
  | cancel | discover_fail =>
      refine .kept (.of_bare ⟨rfl, rfl, rfl, rfl⟩) (by simp [mints]) (by simp [rejects]) ?_ ?_ ?_ <;>
        simp [Values.set, unplanned, underApproval]
  | discover_start =>
      refine .kept (.of_bare ⟨rfl, rfl, rfl, rfl⟩) (by simp [mints]) (by simp [rejects]) ?_ ?_ ?_
      · simp [unplanned, Expect.state_of_matches hm rfl]
      · simp [Values.set]
      · simp [Values.set, underApproval]
  | discover_demo hp hd => exact absurd hd (by simp [show _ = false from hp])
  | discover_draft hseen hb =>
      exact .drafted (by simp [mints]) (Expect.state_of_matches hm rfl) hseen hb
  | discover_review =>
      exact .handed (.of_bare ⟨rfl, rfl, rfl, rfl⟩) (by simp [mints]) (by simp [rejects])
        (by simp [handsOver]) rfl
  | save_plan hp hseen _ hv hb =>
      exact .edited (by simp [mints]) (Expect.version_of_matches hm rfl) hseen hv (hb hp)
  | revise_plan hseen _ hv hplan =>
      exact .revised (by simp [mints]) (by simp [revises]) (Expect.version_of_matches hm rfl) hseen hv hplan
  | approve hseen _ hv hplan ha₁ ha₂ ha₃ ha₄ =>
      exact .approved (by simp [mints]) (by simp [rejects]) (Expect.state_of_matches hm rfl)
        (Expect.version_of_matches hm rfl) hseen hv hplan ha₁ ha₂ ha₃ ha₄
  | reject hseen _ hv hplan =>
      exact .rejected (by simp [mints]) (by simp [rejects]) (Expect.version_of_matches hm rfl) hseen hv hplan
  | execute hs =>
      have hstate := Expect.state_of_matches hm rfl
      refine .kept (.of_bare ⟨rfl, rfl, rfl, rfl⟩) (by simp [mints]) (by simp [rejects]) ?_ ?_ ?_ <;>
        rcases hs with ⟨rfl, rfl⟩ | ⟨rfl, rfl⟩ | ⟨rfl, rfl⟩ | ⟨rfl, rfl⟩ <;>
        simp [Values.set, unplanned, underApproval, hstate]
  | save_report =>
      exact .kept (.of_bare ⟨rfl, rfl, rfl, rfl⟩) (by simp [mints]) (by simp [rejects]) (by simp [Values.set])
        (by simp [Values.set]) (by simp [Values.set])
  | finalize_report =>
      refine .kept (.of_bare ⟨rfl, rfl, rfl, rfl⟩) (by simp [mints]) (by simp [rejects]) ?_ ?_ ?_ <;>
        simp [Values.set, unplanned, underApproval]
  | @execute_job lease completed s values _ hs hedge hbare =>
      have hstate := Expect.state_of_matches hm rfl
      obtain ⟨hfresh, hreview, happroved⟩ := edge_of_execution hs hedge
      have hset : (values.set row).state = values.state.getD s := by simp [Values.set, hstate]
      refine .kept (.of_bare hbare) (by simp [mints, hbare.2.1]) (by simp [rejects]) ?_ ?_ ?_
      · rw [hset, hfresh]
        exact fun h => absurd h (by simp)
      · rw [hset]
        exact fun h => absurd h hreview
      · rw [hstate]
        exact fun _ => happroved

/-- What a lawful event does to the plan of every hunt. -/
theorem LawfulEvent.planStep {t : Transaction} {before after : Database}
    (hl : LawfulEvent helpers Production s₀ past (.committed t before after))
    (htx : t.effect before = some after) (hunt_id : Uuid) :
    PlanStep helpers s₀ past hunt_id (.committed (S := signature) t before after)
      (before.hunts hunt_id) (after.hunts hunt_id) := by
  have hstep := rowStep htx hunt_id
  generalize before.hunts hunt_id = r at hstep ⊢
  generalize after.hunts hunt_id = r' at hstep ⊢
  cases hstep with
  | same ht =>
      have hmints : mints hunt_id (.committed (S := signature) t before after) = false := by
        unfold mints
        split
        next heq =>
          cases heq
          simp only [Transaction.target, ne_eq, Option.some.injEq] at ht
          simp [ht]
        next => rfl
      have hrejects : rejects hunt_id (.committed (S := signature) t before after) = false := by
        unfold rejects
        split
        next heq =>
          cases heq
          simpa [Transaction.target] using ht
        next => rfl
      cases r with
      | none => exact .absent
      | some row => exact .kept (.refl row) hmints hrejects id id id
  | insert hid => exact .created hl hid
  | update hm => exact Lawful.planStep hl hm
  | @enqueue owner_id expect values job row hm =>
      obtain ⟨hexpect, hqueued, hbare⟩ :
        expect.state = some .approved ∧ values.state = some .queued ∧ values.Bare := hl
      have hset : (values.set row).state = .queued := by simp [Values.set, hqueued]
      refine .kept (.of_bare hbare) rfl rfl ?_ ?_ ?_
      · rw [hset]
        exact fun h => absurd h (by decide)
      · rw [hset]
        exact fun h => absurd h (by decide)
      · rw [Expect.state_of_matches hm hexpect]
        exact fun _ => by decide

/-! ### Rows seen earlier -/

/-- Has no rejection edited the plan since its version was stored? -/
def UnrejectedSinceMint (hunt_id : Uuid) : List Event → Prop
  | [] => True
  | e :: past => mints hunt_id e = true ∨ rejects hunt_id e = false ∧ UnrejectedSinceMint hunt_id past

instance UnrejectedSinceMint.decidable (hunt_id : Uuid) : ∀ past, Decidable (UnrejectedSinceMint hunt_id past)
  | [] => isTrue trivial
  | _ :: past =>
      have := UnrejectedSinceMint.decidable hunt_id past
      inferInstanceAs (Decidable (_ ∨ _ ∧ UnrejectedSinceMint hunt_id past))

/-- `discover` hands no plan to review that a rejection has edited under its version. -/
def HandsOverUnrejected (hunt_id : Uuid) (past : List Event) (e : Event) : Prop :=
  handsOver hunt_id e = true → UnrejectedSinceMint hunt_id past

instance (hunt_id : Uuid) (past : List Event) (e : Event) : Decidable (HandsOverUnrejected hunt_id past e) := by
  unfold HandsOverUnrejected
  infer_instance

/-- The row's plan version is at least that of the row seen earlier, and if it is the same one,
so are the snapshot and the plan's identities, and the plan itself unless a rejection has
edited it and sent it away from review. -/
def Follows (hunt_id : Uuid) (past : List Event) (seen row : HuntRow) : Prop :=
  ∀ version, seen.plan_version = some version → ∃ current, row.plan_version = some current ∧
    version ≤ current ∧ (current = version →
      seen.discovery_snapshot = row.discovery_snapshot ∧
      seen.plan.bind (·.header) = row.plan.bind (·.header) ∧
      (seen.plan = row.plan ∨ ¬UnrejectedSinceMint hunt_id past ∧ row.state ≠ .awaiting_plan_review))

/-- What the stored plan's identities are bound to. -/
def PlanBound (hunt_id : Uuid) (row : HuntRow) : Prop :=
  ∀ plan, row.plan = some plan → ∃ header snapshot config, plan.header = some header ∧
    row.discovery_snapshot = some snapshot ∧ snapshot.execution_config_snapshot = some config ∧
    header.hunt_id = hunt_id ∧ header.discovery_snapshot_id = snapshot.snapshot_id ∧
    header.execution_config_snapshot_id = config.snapshot_id

/-- What holds of every stored row. -/
structure PlanColumns (hunt_id : Uuid) (row : HuntRow) : Prop where
  key : row.hunt_id = hunt_id
  versioned : row.plan_version = none ↔ row.plan = none
  unplanned : unplanned row.state = true → row.plan_version = none
  bound : PlanBound hunt_id row

theorem Follows.refl (row : HuntRow) : Follows hunt_id past row row :=
  fun version hv => ⟨version, hv, Nat.le_refl _, fun _ => ⟨rfl, rfl, .inl rfl⟩⟩

/-- The plan a row seen earlier had under the same version, where the hunt is in review now. -/
theorem Follows.plan {seen row : HuntRow} (h : Follows hunt_id past seen row) {version : Nat}
    (hs : seen.plan_version = some version) (hr : row.plan_version = some version)
    (hstate : row.state = .awaiting_plan_review) :
    seen.plan = row.plan ∧ seen.discovery_snapshot = row.discovery_snapshot := by
  obtain ⟨current, hcurrent, -, hsame⟩ := h version hs
  obtain rfl : current = version := Option.some.inj (hcurrent.symm.trans hr)
  obtain ⟨hsnapshot, -, hplan⟩ := hsame rfl
  exact ⟨hplan.resolve_right fun h => h.2 hstate, hsnapshot⟩

theorem Follows.identities {seen row : HuntRow} (h : Follows hunt_id past seen row) {version : Nat}
    (hs : seen.plan_version = some version) (hr : row.plan_version = some version) :
    seen.discovery_snapshot = row.discovery_snapshot ∧
      seen.plan.bind (·.header) = row.plan.bind (·.header) := by
  obtain ⟨current, hcurrent, -, hsame⟩ := h version hs
  obtain rfl : current = version := Option.some.inj (hcurrent.symm.trans hr)
  exact ⟨(hsame rfl).1, (hsame rfl).2.1⟩

/-- A version that is stored anew is none that was seen. -/
theorem Follows.mint {seen row row' : HuntRow} {e : Event} {version : Nat}
    (h : Follows hunt_id past seen row) (hr : row.plan_version = some version)
    (hr' : row'.plan_version = some (version + 1)) : Follows hunt_id (e :: past) seen row' := by
  intro v hv
  obtain ⟨current, hcurrent, hle, -⟩ := h v hv
  obtain rfl : current = version := Option.some.inj (hcurrent.symm.trans hr)
  exact ⟨current + 1, hr', by omega, fun h => by omega⟩

/-- An event that keeps the plan keeps what follows from it, unless it brings back to review a plan
that was rejected. -/
theorem Follows.keep {seen row row' : HuntRow} {e : Event} (h : Follows hunt_id past seen row)
    (hsame : SamePlan row row') (hm : mints hunt_id e = false)
    (hstate : row'.state = .awaiting_plan_review →
      row.state = .awaiting_plan_review ∨ UnrejectedSinceMint hunt_id past) :
    Follows hunt_id (e :: past) seen row' := by
  obtain ⟨-, hplan, hversion, hsnapshot, -⟩ := hsame
  intro v hv
  obtain ⟨current, hcurrent, hle, hidentities⟩ := h v hv
  refine ⟨current, hversion.trans hcurrent, hle, fun heq => ?_⟩
  obtain ⟨hs, hh, hp⟩ := hidentities heq
  refine ⟨hs.trans hsnapshot.symm, by rw [hh, hplan], ?_⟩
  rcases hp with hp | ⟨hrejected, hstate₀⟩
  · exact .inl (hp.trans hplan.symm)
  · refine .inr ⟨?_, fun h' => (hstate h').elim hstate₀ hrejected⟩
    simp only [UnrejectedSinceMint, hm, Bool.false_eq_true, false_or, not_and]
    exact fun _ => hrejected

/-- Every event keeps what rows seen earlier tell of the current one. -/
theorem PlanStep.follows {seen row row' : HuntRow} {e : Event}
    (hstep : PlanStep helpers s₀ past hunt_id e (some row) (some row'))
    (hc : HandsOverUnrejected hunt_id past e) (hcols : PlanColumns hunt_id row)
    (hall : ∀ seen, Seen s₀ past hunt_id seen → Follows hunt_id past seen row)
    (hseen : Seen s₀ past hunt_id seen) : Follows hunt_id (e :: past) seen row' := by
  have h := hall seen hseen
  cases hstep with
  | kept hsame hm _ _ hreview _ => exact h.keep hsame hm fun hs => .inl (hreview hs)
  | handed hsame hm _ hover _ => exact h.keep hsame hm fun _ => .inr (hc hover)
  | drafted _ hstate _ _ =>
      -- before the draft no row had a version
      intro v hv
      obtain ⟨current, hcurrent, -, -⟩ := h v hv
      rw [hcols.unplanned (by simp [WorkflowService.unplanned, hstate])] at hcurrent
      cases hcurrent
  | edited _ hv _ _ _ => exact h.mint hv rfl
  | revised _ _ hv _ _ _ => exact h.mint hv rfl
  | approved hm _ hstate _ _ _ _ _ _ _ _ =>
      intro v hv
      obtain ⟨current, hcurrent, hle, hidentities⟩ := h v hv
      refine ⟨current, hcurrent, hle, fun heq => ?_⟩
      obtain ⟨hs, hh, hp⟩ := hidentities heq
      exact ⟨hs, hh, .inl (hp.resolve_right fun h => h.2 hstate)⟩
  | @rejected row read version plan note at_ hm hrej hv hread hreadv hplan =>
      intro v hseenv
      obtain ⟨current, hcurrent, hle, hidentities⟩ := h v hseenv
      refine ⟨current, hcurrent, hle, fun heq => ?_⟩
      obtain ⟨hs, hh, -⟩ := hidentities heq
      -- the note is added to the plan of the row the rejection read, which has the same header
      have hheader := ((hall read hread).identities hreadv hv).2
      refine ⟨hs, ?_, .inr ⟨?_, by simp [Values.set]⟩⟩
      · rw [hh, ← hheader, hplan]
        rfl
      · simp [UnrejectedSinceMint, hm, hrej]

/-- Every event keeps what holds of stored rows. -/
theorem PlanStep.columns {row row' : HuntRow} {e : Event}
    (hstep : PlanStep helpers s₀ past hunt_id e (some row) (some row'))
    (hcols : PlanColumns hunt_id row)
    (hkeys : ∀ seen, Seen s₀ past hunt_id seen → seen.hunt_id = hunt_id)
    (hall : ∀ seen, Seen s₀ past hunt_id seen → Follows hunt_id past seen row) :
    PlanColumns hunt_id row' := by
  have kept : ∀ {row'}, SamePlan row row' →
      (WorkflowService.unplanned row'.state = true → WorkflowService.unplanned row.state = true) →
      PlanColumns hunt_id row' := by
    intro row' ⟨hid, hplan, hversion, hsnapshot, _⟩ hun
    refine ⟨hid.trans hcols.key, ?_, fun h => hversion.trans (hcols.unplanned (hun h)), ?_⟩
    · rw [hversion, hplan]
      exact hcols.versioned
    · intro plan h
      rw [hsnapshot]
      exact hcols.bound plan (hplan ▸ h)
  -- the stored plan has the header of the one that was read
  have identities : ∀ {read version plan}, row.plan_version = some version → Seen s₀ past hunt_id read →
      read.plan_version = some version → read.plan = some plan →
      ∃ current, row.plan = some current ∧ current.header = plan.header := by
    intro read version plan hv hread hreadv hplan
    have hheader := ((hall read hread).identities hreadv hv).2
    cases hcurrent : row.plan with
    | none => simp [hcols.versioned.mpr hcurrent] at hv
    | some current =>
        rw [hplan, hcurrent] at hheader
        exact ⟨current, rfl, hheader.symm⟩
  cases hstep with
  | kept hsame _ _ hun _ _ => exact kept hsame hun
  | handed hsame _ _ _ hstate => exact kept hsame fun h => by simp [hstate, WorkflowService.unplanned] at h
  | drafted _ _ hread hb =>
      obtain ⟨header, config, hheader, hconfig, hid, hsid, hcid, -⟩ := hb
      refine ⟨hcols.key, by simp [Values.set], by simp [Values.set, WorkflowService.unplanned], ?_⟩
      intro p hp
      obtain rfl := Option.some.inj hp
      exact ⟨header, _, config, hheader, rfl, hconfig, hid.trans (hkeys _ hread), hsid, hcid⟩
  | edited _ hv hread hreadv hb =>
      obtain ⟨stored, previous, header, hstored, hprevious, hheader, -, hid, hcid, hsnapshot⟩ := hb
      obtain ⟨current, hcurrent, hsame⟩ := identities hv hread hreadv hstored
      obtain ⟨h₀, snapshot₀, config, hh₀, hs₀, hconfig, hid₀, hsid₀, hcid₀⟩ := hcols.bound current hcurrent
      obtain rfl : h₀ = previous := Option.some.inj (hh₀.symm.trans (hsame.trans hprevious))
      refine ⟨hcols.key, by simp [Values.set], by simp [Values.set, WorkflowService.unplanned], ?_⟩
      intro p hp
      obtain rfl := Option.some.inj hp
      rcases hsnapshot with ⟨hnone, hsid⟩ | ⟨snapshot, original, hsome, horiginal, hsid, hkeep⟩
      · exact ⟨header, snapshot₀, config, hheader, by simp [Values.set, hnone, hs₀], hconfig,
          hid.trans hid₀, hsid.trans hsid₀, hcid.trans hcid₀⟩
      · have hread₀ := ((hall _ hread).identities hreadv hv).1
        obtain rfl : original = snapshot₀ :=
          Option.some.inj (horiginal.symm.trans (hread₀.trans hs₀))
        exact ⟨header, snapshot, config, hheader, by simp [Values.set, hsome], hkeep.trans hconfig,
          hid.trans hid₀, hsid, hcid.trans hcid₀⟩
  | revised _ _ hv hread hreadv hplan =>
      obtain ⟨current, hcurrent, hsame⟩ := identities hv hread hreadv hplan
      obtain ⟨header, snapshot, config, hheader, hsnapshot, hrest⟩ := hcols.bound current hcurrent
      refine ⟨hcols.key, by simp [Values.set], by simp [Values.set, WorkflowService.unplanned], ?_⟩
      intro p hp
      obtain rfl := Option.some.inj hp
      exact ⟨header, snapshot, config, hsame.symm.trans hheader, by simpa [Values.set] using hsnapshot, hrest⟩
  | approved _ _ hstate hv _ _ _ _ _ _ _ =>
      exact ⟨hcols.key, hcols.versioned, by simp [Values.set, WorkflowService.unplanned], hcols.bound⟩
  | rejected _ _ hv hread hreadv hplan =>
      obtain ⟨current, hcurrent, hsame⟩ := identities hv hread hreadv hplan
      obtain ⟨header, snapshot, config, hheader, hsnapshot, hrest⟩ := hcols.bound current hcurrent
      refine ⟨hcols.key, by simp [Values.set, hv], by simp [Values.set, WorkflowService.unplanned], ?_⟩
      intro p hp
      obtain rfl := Option.some.inj hp
      exact ⟨header, snapshot, config, hsame.symm.trans hheader, by simpa [Values.set] using hsnapshot, hrest⟩

/-! ### Whole histories -/

/-- The latest event shows at most one new row. -/
theorem Seen.of_cons {e : Event} {s : Database} {seen : HuntRow} (hl : Leads s₀ (e :: past) s)
    (h : Seen s₀ (e :: past) hunt_id seen) : s.hunts hunt_id = some seen ∨ Seen s₀ past hunt_id seen := by
  obtain ⟨past', s', hp, hl', hrow⟩ := h
  rcases List.suffix_cons_iff.mp hp with rfl | hp
  · rw [hl.unique hl'] at hrow
    exact .inl hrow
  · exact .inr ⟨past', s', hp, hl', hrow⟩

/-- The current row, and every row seen before, as far as the plan is concerned. -/
structure PlanHistory (s₀ : Database) (hunt_id : Uuid) (past : List Event) (s : Database) : Prop where
  absent : s.hunts hunt_id = none → ∀ seen, ¬Seen s₀ past hunt_id seen
  columns : ∀ row, s.hunts hunt_id = some row → PlanColumns hunt_id row
  follows : ∀ row, s.hunts hunt_id = some row → ∀ seen, Seen s₀ past hunt_id seen →
    Follows hunt_id past seen row
  keys : ∀ seen, Seen s₀ past hunt_id seen → seen.hunt_id = hunt_id

/-- A row that was just inserted. -/
theorem PlanColumns.blank {row : HuntRow} (h : row.Blank) (hid : row.hunt_id = hunt_id) :
    PlanColumns hunt_id row := by
  obtain ⟨-, hplan, hversion, -, -, -⟩ := h
  refine ⟨hid, by simp [hplan, hversion], fun _ => hversion, ?_⟩
  intro plan hp
  rw [hplan] at hp
  cases hp

/-- One event. -/
theorem PlanHistory.commit {t : Transaction} {s s' : Database} (h : PlanHistory s₀ hunt_id past s)
    (hl : Leads s₀ past s) (htx : t.effect s = some s')
    (hlaw : LawfulEvent helpers Production s₀ past (.committed t s s'))
    (hc : HandsOverUnrejected hunt_id past (.committed (S := signature) t s s')) :
    PlanHistory s₀ hunt_id (.committed (S := signature) t s s' :: past) s' := by
  have hstep := hlaw.planStep htx hunt_id
  have hl' : Leads s₀ (.committed (S := signature) t s s' :: past) s' := .committed hl htx
  generalize hr : s.hunts hunt_id = r at hstep
  generalize hr' : s'.hunts hunt_id = r' at hstep
  cases r' with
  | none =>
      have hr₀ : r = none := by
        cases hstep
        rfl
      have hnone : ∀ seen, ¬Seen s₀ (.committed (S := signature) t s s' :: past) hunt_id seen := by
        intro seen hseen
        rcases Seen.of_cons hl' hseen with hcur | hold
        · rw [hr'] at hcur
          cases hcur
        · exact h.absent (hr.trans hr₀) seen hold
      exact ⟨fun _ => hnone, by simp [hr'], by simp [hr'], fun seen hseen => absurd hseen (hnone seen)⟩
  | some row' =>
      cases r with
      | none =>
          have hcols : PlanColumns hunt_id row' := by
            cases hstep with
            | created hblank hid => exact .blank hblank hid
          have honly : ∀ seen, Seen s₀ (.committed (S := signature) t s s' :: past) hunt_id seen →
              seen = row' := by
            intro seen hseen
            rcases Seen.of_cons hl' hseen with hcur | hold
            · exact Option.some.inj (hcur.symm.trans hr')
            · exact absurd hold (h.absent hr seen)
          refine ⟨by simp [hr'], fun row hrow => ?_, fun row hrow seen hseen => ?_, fun seen hseen => ?_⟩
          · obtain rfl := Option.some.inj (hr'.symm.trans hrow)
            exact hcols
          · obtain rfl := Option.some.inj (hr'.symm.trans hrow)
            rw [honly seen hseen]
            exact .refl _
          · rw [honly seen hseen]
            exact hcols.key
      | some row =>
          have hcols := hstep.columns (h.columns row hr) h.keys (h.follows row hr)
          refine ⟨by simp [hr'], fun row₁ hrow => ?_, fun row₁ hrow seen hseen => ?_, fun seen hseen => ?_⟩
          · obtain rfl := Option.some.inj (hr'.symm.trans hrow)
            exact hcols
          · obtain rfl := Option.some.inj (hr'.symm.trans hrow)
            rcases Seen.of_cons hl' hseen with hcur | hold
            · rw [Option.some.inj (hcur.symm.trans hr')]
              exact .refl _
            · exact hstep.follows hc (h.columns row hr) (h.follows row hr) hold
          · rcases Seen.of_cons hl' hseen with hcur | hold
            · rw [Option.some.inj (hcur.symm.trans hr')]
              exact hcols.key
            · exact h.keys seen hold

theorem PlanHistory.answer {s : Database} {q : Ask} {a : q.Answer} (h : PlanHistory s₀ hunt_id past s)
    (hl : Leads s₀ past s) : PlanHistory s₀ hunt_id (.answered (S := signature) q a :: past) s := by
  have hseen : ∀ {seen}, Seen s₀ (.answered (S := signature) q a :: past) hunt_id seen →
      s.hunts hunt_id = some seen ∨ Seen s₀ past hunt_id seen := Seen.of_cons (.answered hl)
  refine ⟨fun hnone seen hs => ?_, h.columns, fun row hrow seen hs => ?_, fun seen hs => ?_⟩
  · rcases hseen hs with hcur | hold
    · rw [hnone] at hcur
      cases hcur
    · exact h.absent hnone seen hold
  · rcases hseen hs with hcur | hold
    · rw [Option.some.inj (hcur.symm.trans hrow)]
      exact .refl _
    · exact (h.follows row hrow seen hold).keep (.refl row) rfl fun hs => .inl hs
  · rcases hseen hs with hcur | hold
    · exact (h.columns seen hcur).key
    · exact h.keys seen hold

/-- Every history from tables without the hunt. -/
theorem planHistory {s : Database} (hl : Leads s₀ past s) (h₀ : s₀.hunts hunt_id = none)
    (hlaw : Admitted (LawfulEvent helpers Production s₀) past)
    (hc : Admitted (HandsOverUnrejected hunt_id) past) : PlanHistory s₀ hunt_id past s := by
  induction hl with
  | nil =>
      have hnone : ∀ seen, ¬Seen s₀ [] hunt_id seen := by
        intro seen ⟨past', s', hp, hl', hrow⟩
        rw [List.suffix_nil.mp hp] at hl'
        rw [← hl'.unique .nil, h₀] at hrow
        cases hrow
      exact ⟨fun _ => hnone, by simp [h₀], by simp [h₀], fun seen hs => absurd hs (hnone seen)⟩
  | answered hl ih => exact (ih hlaw.2 hc.2).answer hl
  | committed hl htx ih => exact (ih hlaw.2 hc.2).commit hl htx hlaw.1 hc.1

/-- The stored approval is that of the stored plan, version and configuration. -/
def ApprovalBound (helpers : Helpers) (row : HuntRow) : Prop :=
  underApproval row.state = true → ∃ plan approval, row.plan = some plan ∧ row.approval = some approval ∧
    approval.plan_sha256 = helpers.plan_sha256 plan ∧ approval.plan_version = row.plan_version ∧
    approval.execution_config_snapshot_id =
      (row.discovery_snapshot.bind (·.execution_config_snapshot)).map (·.snapshot_id) ∧
    approval.execution_config_sha256 =
      (row.discovery_snapshot.bind (·.execution_config_snapshot)).map (·.sha256)

/-- Every event keeps the approval bound. -/
theorem PlanStep.approvalBound {row row' : HuntRow} {e : Event}
    (hstep : PlanStep helpers s₀ past hunt_id e (some row) (some row'))
    (hall : ∀ seen, Seen s₀ past hunt_id seen → Follows hunt_id past seen row)
    (h : ApprovalBound helpers row) : ApprovalBound helpers row' := by
  cases hstep with
  | kept hsame _ _ _ _ happroved =>
      obtain ⟨-, hplan, hversion, hsnapshot, happroval⟩ := hsame
      intro hs
      rw [hplan, hversion, hsnapshot, happroval]
      exact h (happroved hs)
  | handed _ _ _ _ hstate =>
      intro hs
      simp [hstate, underApproval] at hs
  | drafted | edited | revised | rejected =>
      intro hs
      simp [Values.set, underApproval] at hs
  | approved _ _ hstate hv hread hreadv hplan hav hsha hcid hcsha =>
      obtain ⟨hsameplan, hsamesnapshot⟩ := (hall _ hread).plan hreadv hv hstate
      intro _
      refine ⟨_, _, hsameplan.symm.trans hplan, rfl, hsha, hav.trans hv.symm, ?_, ?_⟩
      · simpa [Values.set, ← hsamesnapshot] using hcid
      · simpa [Values.set, ← hsamesnapshot] using hcsha

theorem approvalBound {s : Database} (hl : Leads s₀ past s) (h₀ : s₀.hunts hunt_id = none)
    (hlaw : Admitted (LawfulEvent helpers Production s₀) past)
    (hc : Admitted (HandsOverUnrejected hunt_id) past) :
    ∀ row, s.hunts hunt_id = some row → ApprovalBound helpers row := by
  induction hl with
  | nil => simp [h₀]
  | answered _ ih => exact ih hlaw.2 hc.2
  | @committed es s t s' hl htx ih =>
      intro row' hrow'
      have hstep := LawfulEvent.planStep hlaw.1 htx hunt_id
      rw [hrow'] at hstep
      cases hr : s.hunts hunt_id with
      | none =>
          rw [hr] at hstep
          cases hstep with
          | created hblank _ =>
              intro hs
              simp [hblank.1, underApproval] at hs
      | some row =>
          rw [hr] at hstep
          exact hstep.approvalBound ((planHistory hl h₀ hlaw.2 hc.2).follows row hr) (ih hlaw.2 hc.2 row hr)

/-- **Binding integrity.** In every run of a production deployment in which `discover` hands no plan
to review that was rejected under its version: the stored plan is bound to the stored hunt,
snapshot and configuration, and the approval of an approved hunt is that of its stored plan. -/
theorem binding_integrity {h : History} {ps : List Client}
    (run : Pool.Run (Clients helpers Production) s₀ h ps) (h₀ : s₀.hunts hunt_id = none)
    (hc : Admitted (HandsOverUnrejected hunt_id) h.past) :
    ∀ row, h.now.hunts hunt_id = some row →
      row.hunt_id = hunt_id ∧ PlanBound hunt_id row ∧ ApprovalBound helpers row := by
  intro row hrow
  obtain ⟨hl, hlaw⟩ := runs_lawful run
  have hcols := (planHistory hl h₀ hlaw hc).columns row hrow
  exact ⟨hcols.key, hcols.bound, approvalBound hl h₀ hlaw hc row hrow⟩

/-! ### One plan for each version -/

/-- The event does not edit the hunt's plan in place: it is neither a rejection, which keeps the
row's version, nor a revision request, which keeps the version inside the plan. -/
def EditsByVersion (hunt_id : Uuid) (_ : List Event) (e : Event) : Prop :=
  rejects hunt_id e = false ∧ revises hunt_id e = false

instance (hunt_id : Uuid) (past : List Event) (e : Event) : Decidable (EditsByVersion hunt_id past e) :=
  inferInstanceAs (Decidable (_ ∧ _))

/-- The version inside the stored plan is the row's. -/
def InnerVersion (row : HuntRow) : Prop :=
  ∀ plan, row.plan = some plan → plan.header.map (·.plan_version) = row.plan_version

theorem unrejected_of_editsByVersion (h : Admitted (EditsByVersion hunt_id) past) :
    UnrejectedSinceMint hunt_id past := by
  induction past with
  | nil => trivial
  | cons e past ih => exact .inr ⟨h.1.1, ih h.2⟩

theorem handsOver_of_editsByVersion (h : Admitted (EditsByVersion hunt_id) past) :
    Admitted (HandsOverUnrejected hunt_id) past := by
  induction past with
  | nil => trivial
  | cons e past ih => exact ⟨fun _ => unrejected_of_editsByVersion h.2, ih h.2⟩

/-- An event that does not edit in place keeps the inner version in step. -/
theorem PlanStep.innerVersion {row row' : HuntRow} {e : Event}
    (hstep : PlanStep helpers s₀ past hunt_id e (some row) (some row'))
    (he : EditsByVersion hunt_id past e) (h : InnerVersion row) : InnerVersion row' := by
  cases hstep with
  | kept hsame _ _ _ _ _ | handed hsame _ _ _ _ =>
      obtain ⟨-, hplan, hversion, -, -⟩ := hsame
      unfold InnerVersion
      rw [hplan, hversion]
      exact h
  | drafted _ _ _ hb =>
      obtain ⟨header, config, hheader, -, -, -, -, hversion⟩ := hb
      intro plan hp
      obtain rfl := Option.some.inj hp
      simp [Values.set, hheader, hversion]
  | edited _ _ _ _ hb =>
      obtain ⟨stored, previous, header, -, -, hheader, hversion, -⟩ := hb
      intro plan hp
      obtain rfl := Option.some.inj hp
      simp [Values.set, hheader, hversion]
  | revised _ hrev => simp [he.2] at hrev
  | approved _ _ _ _ _ _ _ _ _ _ _ => exact h
  | rejected _ hrej => simp [he.1] at hrej

theorem innerVersion {s : Database} (hl : Leads s₀ past s) (h₀ : s₀.hunts hunt_id = none)
    (hlaw : Admitted (LawfulEvent helpers Production s₀) past)
    (he : Admitted (EditsByVersion hunt_id) past) :
    ∀ row, s.hunts hunt_id = some row → InnerVersion row := by
  induction hl with
  | nil => simp [h₀]
  | answered _ ih => exact ih hlaw.2 he.2
  | @committed es s t s' hl htx ih =>
      intro row' hrow'
      have hstep := LawfulEvent.planStep hlaw.1 htx hunt_id
      rw [hrow'] at hstep
      cases hr : s.hunts hunt_id with
      | none =>
          rw [hr] at hstep
          cases hstep with
          | created hblank _ =>
              intro plan hplan
              rw [hblank.2.1] at hplan
              cases hplan
      | some row =>
          rw [hr] at hstep
          exact hstep.innerVersion he.1 (ih hlaw.2 he.2 row hr)

/-- Two rows of a history with one version store one plan. -/
theorem plan_of_version {s : Database} (hl : Leads s₀ past s) (h₀ : s₀.hunts hunt_id = none)
    (hlaw : Admitted (LawfulEvent helpers Production s₀) past)
    (he : Admitted (EditsByVersion hunt_id) past) {seen row : HuntRow} {version : Nat}
    (hseen : Seen s₀ past hunt_id seen) (hrow : s.hunts hunt_id = some row)
    (hs : seen.plan_version = some version) (hr : row.plan_version = some version) :
    seen.plan = row.plan := by
  have hfollows := (planHistory hl h₀ hlaw (handsOver_of_editsByVersion he)).follows row hrow seen hseen
  obtain ⟨current, hcurrent, -, hsame⟩ := hfollows version hs
  obtain rfl : current = version := Option.some.inj (hcurrent.symm.trans hr)
  exact (hsame rfl).2.2.resolve_right fun h => h.1 (unrejected_of_editsByVersion he)

end

/-! ### Concrete runs -/

/-- Tables without a hunt. -/
def noHunts : Database := ⟨fun _ => none, .empty⟩

/-- The `i`-th client takes one step for each identifier, which answers a request for a new one. -/
def reviewSteps (i : Nat) (ids : List Uuid) : List Move := ids.map fun id => .step i (reviewAnswers id)

/-- A hunt is created, and `discover` comes to its last two steps. -/
def drafting : List Move :=
  .start (.create_hunt "o" "title" "hypothesis" "objective" "" "") :: reviewSteps 0 ["", "h", ""] ++
    .start (.discover "o" "h") ::
      reviewSteps 0 ["", "", "", "", "s", "c", "", "p", "", "", "", "t", ""]

/-- The hunt's state, plan version, the digest of its plan and the one of its approval. -/
def reviewState (h : History) : Option (HuntState × Option Nat × Option String × Option String) :=
  (h.now.hunts "h").map fun row =>
    (row.state, row.plan_version, row.plan.map exampleHelpers.plan_sha256, row.approval.map (·.plan_sha256))

/-- A plan that was drafted, reviewed and approved. -/
def approvedDraft : List Move :=
  drafting ++ reviewSteps 0 ["", ""] ++ .start (.approve "o" "h" none) :: reviewSteps 0 ["", "a", "", "", ""]

theorem binding_integrity_approved :
    ∃ h, reviewState h = some (.approved, some 1, some "", some "") ∧
      ∀ row, h.now.hunts "h" = some row →
        row.hunt_id = "h" ∧ PlanBound "h" row ∧ ApprovalBound exampleHelpers row := by
  obtain ⟨ps, run⟩ := play_run Production rfl approvedDraft noHunts
  exact ⟨_, by decide, binding_integrity run rfl (by decide)⟩

/-- While `discover` is about to hand over version 1, an analyst stores version 2, a second one reads
it for approval and a third one rejects it; then `discover` hands the rejected plan over, and
the approval is stored. -/
def staleApproval : List Move :=
  drafting ++ .start (.revise_plan "o" "h" "n") :: reviewSteps 0 ["", "", ""] ++
    .start (.approve "o" "h" none) :: reviewSteps 0 [""] ++
    .start (.reject "o" "h" "m") :: reviewSteps 0 ["", "", ""] ++
    reviewSteps 3 ["", ""] ++ reviewSteps 1 ["a", "", "", ""]

/-- An approved hunt whose stored plan is not the one that was approved. -/
theorem stale_approval_of_rejected_plan :
    ∃ h ps row, Pool.Run (Clients exampleHelpers Production) noHunts h ps ∧
      h.now.hunts "h" = some row ∧ row.state = .approved ∧ ¬ApprovalBound exampleHelpers row := by
  obtain ⟨ps, run⟩ := play_run Production rfl staleApproval noHunts
  have hstate : reviewState (play staleApproval noHunts) =
      some (.approved, some 2, some "Analyst revision request: n;Rejected for revision: m",
        some "Analyst revision request: n") := by decide
  unfold reviewState at hstate
  obtain ⟨row, hrow, hfacts⟩ := Option.map_eq_some_iff.mp hstate
  simp only [Prod.mk.injEq] at hfacts
  obtain ⟨happroved, -, hplan, happroval⟩ := hfacts
  refine ⟨_, ps, row, run, hrow, happroved, fun hbound => ?_⟩
  obtain ⟨plan, approval, hp, ha, hsha, -⟩ := hbound (by rw [happroved]; decide)
  rw [hp, Option.map_some, Option.some.injEq] at hplan
  rw [ha, Option.map_some, Option.some.injEq, hsha, hplan] at happroval
  exact absurd happroval (by decide)

/-- A drafted plan that is rejected. -/
def rejectedDraft : List Move :=
  drafting ++ reviewSteps 0 ["", ""] ++ .start (.reject "o" "h" "m") :: reviewSteps 0 ["", "", ""]

/-- The hunt's rows before and after the latest event. -/
def lastRows (h : History) (hunt_id : Uuid) : Option (HuntRow × HuntRow) :=
  match h.past with
  | .committed _ before after :: _ => do
      let row ← before.hunts hunt_id
      let row' ← after.hunts hunt_id
      pure (row, row')
  | _ => none

theorem seen_of_lastRows {s₀ : Database} {h : History} {hunt_id : Uuid} {row row' : HuntRow}
    (hl : Leads s₀ h.past h.now) (hc : lastRows h hunt_id = some (row, row')) :
    Seen s₀ h.past hunt_id row ∧ Seen s₀ h.past hunt_id row' := by
  obtain ⟨now, past⟩ := h
  unfold lastRows at hc
  split at hc
  next t before after past' hpast =>
    simp only at hpast hl ⊢
    subst hpast
    simp only [Option.bind_eq_bind, Option.bind_eq_some_iff, Option.pure_def, Option.some.injEq,
      Prod.mk.injEq] at hc
    obtain ⟨row₁, hrow₁, row₂, hrow₂, rfl, rfl⟩ := hc
    cases hl with
    | committed hl htx =>
        exact ⟨⟨past', before, List.suffix_cons _ _, hl, hrow₁⟩,
          ⟨_, _, List.suffix_refl _, .committed hl htx, hrow₂⟩⟩
  next => cases hc

end WorkflowService

end ThreatHunting
