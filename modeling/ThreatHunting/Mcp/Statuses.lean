import ThreatHunting.Mcp.Submission

/-!
# ThreatHunting.Mcp.Statuses

The terminal statuses of the request ledger. Every outcome is written to its row whatever the row
says by then, so a terminal status stays exactly if no outcome overtakes it: each write must find
its row not yet terminal, or write the status again that is there.
-/

namespace ThreatHunting

open Store

namespace Mcp.Connector

/-- The terminal statuses. -/
def terminalStatuses : List String := ["completed", "failed", "cancelled"]

/-- Every terminal entry of `s` is in `s'` with its status. -/
def Absorbed (s s' : Ledger) : Prop :=
  ∀ request_id row, s.entry request_id = some row → row.status ∈ terminalStatuses →
    ∃ row', s'.entry request_id = some row' ∧ row'.status = row.status

/-- Once an entry is terminal, it stays and keeps its status. -/
def TerminalAbsorbing (s₀ : Ledger) (past : List Event) : Prop :=
  ∀ {past₁ past₂ s₁ s₂}, past₁ <:+ past₂ → past₂ <:+ past → Leads s₀ past₁ s₁ → Leads s₀ past₂ s₂ → Absorbed s₁ s₂

/-- An outcome that writes the status again. A submission that is completed or reconciled has none to
write again; a refusal has where it was permanent, a cancellation where it was one before, and a poll
where it is answered with the status, or with none. -/
def Outcome.Repeats (status : String) : Outcome → Prop
  | .submitted _ | .reconciled _ => False
  | .refused category => status = "failed" ∧ category ∉ outcomeUnknown
  | .polled state => ∀ s ∈ state, s = status
  | .cancelled => status = "cancelled"

instance (status : String) : DecidablePred (Outcome.Repeats status)
  | .submitted _ | .reconciled _ => inferInstanceAs (Decidable False)
  | .refused category => inferInstanceAs (Decidable (status = "failed" ∧ category ∉ outcomeUnknown))
  | .polled none => isTrue nofun
  | .polled (some s) => decidable_of_iff (s = status) (by simp [Outcome.Repeats])
  | .cancelled => inferInstanceAs (Decidable (status = "cancelled"))

/-- The condition on a write: its entry is not terminal, or the outcome repeats its status. -/
def Unsurpassed (_ : List Event) : Event → Prop
  | .committed (.update request_id outcome _) before _ =>
      ∀ row ∈ before.entry request_id, row.status ∈ terminalStatuses → outcome.Repeats row.status
  | _ => True

instance Unsurpassed.decidable (past : List Event) : DecidablePred (Unsurpassed past)
  | .committed (.update request_id outcome _) before _ =>
      inferInstanceAs (Decidable (∀ row ∈ before.entry request_id, row.status ∈ terminalStatuses →
        outcome.Repeats row.status))
  | .committed (.insert _) _ _ | .answered _ _ => isTrue trivial

/-! ### One write -/

theorem Absorbed.refl (s : Ledger) : Absorbed s s := fun _ row hrow _ => ⟨row, hrow, rfl⟩

theorem Absorbed.trans {s₁ s₂ s₃ : Ledger} (h : Absorbed s₁ s₂) (h' : Absorbed s₂ s₃) : Absorbed s₁ s₃ := by
  intro request_id row hrow hterminal
  obtain ⟨row', hrow', hstatus⟩ := h request_id row hrow hterminal
  obtain ⟨row'', hrow'', hstatus'⟩ := h' request_id row' hrow' (hstatus ▸ hterminal)
  exact ⟨row'', hrow'', hstatus'.trans hstatus⟩

/-- Writing an outcome leaves its row under its id. -/
theorem write_request_id (outcome : Outcome) (now : Instant) (row : RequestRow) :
    (outcome.write now row).request_id = row.request_id := by
  cases outcome with
  | polled state =>
      simp only [Outcome.write]
      split <;> rfl
  | _ => rfl

/-- The status after a write is the outcome's, if it has one. -/
theorem write_status (outcome : Outcome) (now : Instant) (row : RequestRow) :
    (outcome.write now row).status = outcome.status.getD row.status := by
  cases outcome with
  | polled state =>
      simp only [Outcome.write]
      split <;> rfl
  | _ => rfl

/-- A terminal status is written again exactly by an outcome that repeats it. -/
theorem status_repeats_iff {outcome : Outcome} {status : String} (h : status ∈ terminalStatuses) :
    outcome.status.getD status = status ↔ outcome.Repeats status := by
  have hsubmitted : "submitted" ≠ status := by
    rintro rfl
    exact absurd h (by decide)
  have hunknown : "unknown" ≠ status := by
    rintro rfl
    exact absurd h (by decide)
  cases outcome with
  | submitted job => simpa [Outcome.status, Outcome.Repeats] using hsubmitted
  | reconciled job => simpa [Outcome.status, Outcome.Repeats] using hsubmitted
  | refused category =>
      by_cases hc : category ∈ outcomeUnknown
      · simpa [Outcome.status, Outcome.Repeats, hc] using hunknown
      · simp [Outcome.status, Outcome.Repeats, hc, eq_comm]
  | polled state => cases state <;> simp [Outcome.status, Outcome.Repeats]
  | cancelled => simp [Outcome.status, Outcome.Repeats, eq_comm]

/-- The entry of a request after an update. -/
theorem entry_update (s : Ledger) (request_id : String) (outcome : Outcome) (now : Instant) (id : String) :
    Ledger.entry (s.map fun row => if row.request_id = request_id then outcome.write now row else row) id =
      (s.entry id).map fun row => if row.request_id = request_id then outcome.write now row else row := by
  rw [Ledger.entry, List.find?_map, Ledger.entry]
  congr 2
  funext row
  simp only [Function.comp_apply]
  split
  · rw [write_request_id]
  · rfl

/-- A row that is found is the one of its id. -/
theorem request_id_of_entry {s : Ledger} {id : String} {row : RequestRow} (h : s.entry id = some row) :
    row.request_id = id := by
  simpa using List.find?_some h

/-- An insertion leaves every entry alone. -/
theorem absorbed_insert {row : RequestRow} {s s' : Ledger} (h : Access.effect (.insert row) s = some s') :
    Absorbed s s' := by
  simp only [Access.effect] at h
  split at h
  · cases h
  · cases h
    intro id found hfound _
    refine ⟨found, ?_, rfl⟩
    rw [Ledger.entry] at hfound ⊢
    rw [List.find?_append, hfound, Option.some_or]

/-- An update absorbs exactly if it repeats the status of a terminal entry. -/
theorem absorbed_update_iff {request_id : String} {outcome : Outcome} {now : Instant} {s s' : Ledger}
    (h : Access.effect (.update request_id outcome now) s = some s') :
    Absorbed s s' ↔ ∀ row ∈ s.entry request_id, row.status ∈ terminalStatuses → outcome.Repeats row.status := by
  cases h
  constructor
  · intro habsorbed row hrow hterminal
    obtain ⟨row', hrow', hstatus⟩ := habsorbed request_id row hrow hterminal
    rw [entry_update, hrow, Option.map_some, if_pos (request_id_of_entry hrow)] at hrow'
    cases hrow'
    rw [write_status] at hstatus
    exact (status_repeats_iff hterminal).mp hstatus
  · intro hrepeats id row hrow hterminal
    rw [entry_update, hrow, Option.map_some]
    refine ⟨_, rfl, ?_⟩
    by_cases hid : row.request_id = request_id
    · have hentry : row ∈ s.entry request_id := by
        rw [← hid, request_id_of_entry hrow]
        exact hrow
      rw [if_pos hid, write_status]
      exact (status_repeats_iff hterminal).mpr (hrepeats row hentry hterminal)
    · rw [if_neg hid]

/-! ### Runs -/

section Runs

variable {s₀ s : Ledger} {past : List Event}

/-- If no outcome overtakes a terminal status, every terminal status stays. -/
theorem absorbed_since (hu : Admitted Unsurpassed past) (hl : Leads s₀ past s) :
    ∀ {past₁ s₁}, past₁ <:+ past → Leads s₀ past₁ s₁ → Absorbed s₁ s := by
  induction hl with
  | nil =>
      intro past₁ s₁ hs hl₁
      rw [List.suffix_nil.mp hs] at hl₁
      cases hl₁
      exact .refl s₀
  | answered hl ih =>
      intro past₁ s₁ hs hl₁
      rcases List.suffix_cons_iff.mp hs with rfl | hs
      · rw [Leads.unique (.answered hl) hl₁]
        exact .refl _
      · exact ih hu.2 hs hl₁
  | @committed es s t s' hl htx ih =>
      intro past₁ s₁ hs hl₁
      rcases List.suffix_cons_iff.mp hs with rfl | hs
      · rw [Leads.unique (.committed hl htx) hl₁]
        exact .refl _
      · refine (ih hu.2 hs hl₁).trans ?_
        cases t with
        | insert row => exact absorbed_insert htx
        | update request_id outcome now => exact (absorbed_update_iff htx).mpr hu.1

/-- If every terminal status stays, no outcome overtakes one. -/
theorem unsurpassed_of_absorbing (hl : Leads s₀ past s) (ha : TerminalAbsorbing s₀ past) :
    Admitted Unsurpassed past := by
  induction hl with
  | nil => trivial
  | answered hl ih =>
      exact ⟨trivial, ih fun hs hs' => ha hs (hs'.trans (List.suffix_cons _ _))⟩
  | @committed es s t s' hl htx ih =>
      refine ⟨?_, ih fun hs hs' => ha hs (hs'.trans (List.suffix_cons _ _))⟩
      have hstep := ha (List.suffix_cons _ _) (List.suffix_refl _) hl (.committed hl htx)
      cases t with
      | insert row => trivial
      | update request_id outcome now => exact (absorbed_update_iff htx).mp hstep

end Runs

/-- The transport says that the search is running. -/
def stillRunning : ∀ q : Ask, q.Answer
  | .now => (0 : Int)
  | .is_cancelled | .commit_lost => false
  | .ledger_fails => none
  | .invoke _ => ()
  | .respond => .ok (.object [("status", .string "running")])

/-- The answer to the poll is on its way while the cancellation is written. -/
def latePoll : List (Pool.Turn ledgerSignature (Except McpFault Unit × Unit)) :=
  .start (MCPConnector.call (sampleConnector.submit sampleRequest)) :: List.replicate 20 (.step 0 sampleAnswers) ++
  .start (MCPConnector.call (sampleConnector.status "job" false)) :: List.replicate 4 (.step 0 stillRunning) ++
  .start (MCPConnector.call (sampleConnector.cancel "job")) :: List.replicate 20 (.step 0 sampleAnswers) ++
  List.replicate 20 (.step 1 stillRunning)

theorem latePoll_run : Pool.Run MCPConnector.Calls [] (Pool.exec latePoll []).1 (Pool.exec latePoll []).2 := by
  refine Pool.exec_run latePoll fun t ht p hp => ?_
  simp only [latePoll, List.cons_append, List.mem_append, List.mem_cons, List.mem_replicate] at ht
  rcases ht with rfl | ((⟨-, rfl⟩ | rfl | ⟨-, rfl⟩) | rfl | ⟨-, rfl⟩) | ⟨-, rfl⟩ <;> cases hp
  · exact .submit sampleConnector sampleRequest
  · exact .status sampleConnector "job" false
  · exact .cancel sampleConnector "job"

end Mcp.Connector

end ThreatHunting
