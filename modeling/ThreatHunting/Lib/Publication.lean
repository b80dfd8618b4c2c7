import Mathlib

/-!
# ThreatHunting.Lib.Publication

Results that are drafted and then published at once under a name, by any number of writers at a
time. Where names stand for places, the results at the places are those of the names in every run
exactly if no two names stand for one place.
-/

namespace Publication

variable {ι κ ρ : Type}

/-- What the writers have drafted, each under a name, and what is published under a name. -/
structure Board (ι ρ : Type) where
  drafts : Nat → Option (ι × List ρ)
  results : ι → Option (List ρ)

/-- What is done: a writer opens a draft, adds to it, publishes or drops it; a result is deleted, or all
drafts are lost. -/
inductive Act (ι ρ : Type)
  | start (w : Nat) (i : ι)
  | add (w : Nat) (row : ρ)
  | publish (w : Nat)
  | drop (w : Nat)
  | delete (i : ι)
  | lose

/-- Nothing is drafted or published. -/
def Board.empty : Board ι ρ := ⟨fun _ => none, fun _ => none⟩

section Step

variable [DecidableEq ι]

/-- Without a draft, a writer's acts do nothing. -/
def Board.step (b : Board ι ρ) : Act ι ρ → Board ι ρ
  | .start w i => { b with drafts := Function.update b.drafts w (some (i, [])) }
  | .add w row =>
      { b with drafts := Function.update b.drafts w ((b.drafts w).map fun d => (d.1, d.2 ++ [row])) }
  | .publish w =>
      match b.drafts w with
      | none => b
      | some (i, rows) =>
          { drafts := Function.update b.drafts w none, results := Function.update b.results i (some rows) }
  | .drop w => { b with drafts := Function.update b.drafts w none }
  | .delete i => { b with results := Function.update b.results i none }
  | .lose => { b with drafts := fun _ => none }

/-- The board after these acts. -/
def Board.run (acts : List (Act ι ρ)) : Board ι ρ := acts.foldl Board.step .empty

theorem Board.run_append (acts : List (Act ι ρ)) (a : Act ι ρ) :
    (Board.run (acts ++ [a])) = (Board.run acts).step a := List.foldl_concat _ _ _ _

end Step

/-- The names an act names are among these. -/
def Act.Over (I : Set ι) : Act ι ρ → Prop
  | .start _ i | .delete i => i ∈ I
  | _ => True

/-- The act at the place of its name. -/
def Act.map (place : ι → κ) : Act ι ρ → Act κ ρ
  | .start w i => .start w (place i)
  | .add w row => .add w row
  | .publish w => .publish w
  | .drop w => .drop w
  | .delete i => .delete (place i)
  | .lose => .lose

section Named

variable [DecidableEq ι] {I : Set ι} {b : Board ι ρ} {a : Act ι ρ}

/-- Drafts have names that an act has named. -/
theorem Board.step_named (h : ∀ w d, b.drafts w = some d → d.1 ∈ I) (ha : a.Over I) :
    ∀ w d, (b.step a).drafts w = some d → d.1 ∈ I := by
  have hupdate : ∀ w (draft : Option (ι × List ρ)), (∀ d ∈ draft, d.1 ∈ I) →
      ∀ w' d, Function.update b.drafts w draft w' = some d → d.1 ∈ I := by
    intro w draft hdraft w' d hd
    by_cases hw : w' = w
    · subst hw
      exact hdraft d (by simpa using hd)
    · exact h w' d (by simpa [hw] using hd)
  cases a with
  | start w i => exact hupdate w _ fun d hd => by cases hd; exact ha
  | add w row =>
      refine hupdate w _ fun d hd => ?_
      obtain ⟨d, hdraft, rfl⟩ := Option.map_eq_some_iff.mp hd
      exact h w d hdraft
  | publish w =>
      rw [Board.step]
      split
      · exact h
      · exact hupdate w none nofun
  | drop w => exact hupdate w none nofun
  | delete i => exact h
  | lose => exact nofun

/-- An act changes results only of names that were named. -/
theorem Board.step_results_of_not_mem (h : ∀ w d, b.drafts w = some d → d.1 ∈ I) (ha : a.Over I) {i : ι} (hi : i ∉ I) :
    (b.step a).results i = b.results i := by
  cases a with
  | publish w =>
      rw [Board.step]
      split
      · rfl
      next j rows hdraft =>
        have hj : j ∈ I := h w (j, rows) hdraft
        exact Function.update_of_ne (ne_of_mem_of_not_mem hj hi).symm _ _
  | delete j => exact Function.update_of_ne (ne_of_mem_of_not_mem (show j ∈ I from ha) hi).symm _ _
  | _ => rfl

end Named

/-- Drafts and results are the same under the names and at their places. -/
structure Agree (place : ι → κ) (I : Set ι) (b : Board ι ρ) (c : Board κ ρ) : Prop where
  named : ∀ w d, b.drafts w = some d → d.1 ∈ I
  drafts : ∀ w, c.drafts w = (b.drafts w).map fun d => (place d.1, d.2)
  results : ∀ i ∈ I, c.results (place i) = b.results i

variable [DecidableEq ι] [DecidableEq κ] {place : ι → κ} {I : Set ι} {b : Board ι ρ} {c : Board κ ρ}

omit [DecidableEq ι] [DecidableEq κ] in
theorem agree_empty (place : ι → κ) (I : Set ι) : Agree place I (.empty : Board ι ρ) .empty :=
  ⟨nofun, fun _ => rfl, fun _ _ => rfl⟩

/-- Nothing is published under a name that no act names. -/
theorem results_eq_none {acts : List (Act ι ρ)} (hacts : ∀ a ∈ acts, a.Over I) {i : ι} (hi : i ∉ I) :
    (Board.run acts).results i = none := by
  have hnamed : (∀ w d, (Board.run acts).drafts w = some d → d.1 ∈ I) ∧ (Board.run acts).results i = none := by
    induction acts using List.reverseRecOn with
    | nil => exact ⟨nofun, rfl⟩
    | append_singleton acts a ih =>
        obtain ⟨hdrafts, hresult⟩ := ih fun a' ha' => hacts a' (List.mem_append_left _ ha')
        have ha := hacts a (List.mem_append_right _ List.mem_cons_self)
        rw [Board.run_append]
        exact ⟨Board.step_named hdrafts ha, (Board.step_results_of_not_mem hdrafts ha hi).trans hresult⟩
  exact hnamed.2

omit [DecidableEq ι] [DecidableEq κ] in
/-- What a writer's draft becomes, on both boards. -/
theorem Agree.update_draft (h : Agree place I b c) (w : Nat) (d : Option (ι × List ρ)) (hd : ∀ e ∈ d, e.1 ∈ I) :
    Agree place I { b with drafts := Function.update b.drafts w d }
      { c with drafts := Function.update c.drafts w (d.map fun d => (place d.1, d.2)) } := by
  refine ⟨fun w' e he => ?_, fun w' => ?_, h.results⟩
  · by_cases hw : w' = w
    · subst hw
      exact hd e (by simpa using he)
    · exact h.named w' e (by simpa [hw] using he)
  · by_cases hw : w' = w
    · subst hw
      simp
    · simp [hw, h.drafts w']

/-- A result under a name, on both boards: no other name has its place. -/
theorem Agree.update_result (h : Agree place I b c) (hplace : Set.InjOn place I) {i : ι} (hi : i ∈ I)
    (rows : Option (List ρ)) :
    Agree place I { b with results := Function.update b.results i rows }
      { c with results := Function.update c.results (place i) rows } := by
  refine ⟨h.named, h.drafts, fun j hj => ?_⟩
  by_cases hji : j = i
  · subst hji
    simp
  · have hplaces : place j ≠ place i := fun heq => hji (hplace hj hi heq)
    simp [hji, hplaces, h.results j hj]

/-- Every act keeps the boards in agreement, if the places tell the names apart. -/
theorem Agree.step (h : Agree place I b c) (hplace : Set.InjOn place I) {a : Act ι ρ} (ha : a.Over I) :
    Agree place I (b.step a) (c.step (a.map place)) := by
  cases a with
  | start w i => exact h.update_draft w (some (i, [])) fun e he => by cases he; exact ha
  | add w row =>
      have hdraft := h.update_draft w ((b.drafts w).map fun d => (d.1, d.2 ++ [row])) fun e he => by
        obtain ⟨d, hd, rfl⟩ := Option.map_eq_some_iff.mp he
        exact h.named w d hd
      rw [Option.map_map] at hdraft
      show Agree place I _ { c with drafts := Function.update c.drafts w ((c.drafts w).map _) }
      rw [h.drafts w, Option.map_map]
      exact hdraft
  | publish w =>
      simp only [Board.step, Act.map, h.drafts w]
      cases hd : b.drafts w with
      | none => exact h
      | some d => exact (h.update_draft w none nofun).update_result hplace (h.named w d hd) (some d.2)
  | drop w => exact h.update_draft w none nofun
  | delete i => exact h.update_result hplace ha none
  | lose => exact ⟨nofun, fun _ => rfl, h.results⟩

theorem agree_run (hplace : Set.InjOn place I) (acts : List (Act ι ρ)) (hacts : ∀ a ∈ acts, a.Over I) :
    Agree place I (Board.run acts) (Board.run (acts.map (Act.map place))) := by
  induction acts using List.reverseRecOn with
  | nil => exact agree_empty place I
  | append_singleton acts a ih =>
      rw [List.map_append, List.map_singleton, Board.run_append, Board.run_append]
      have hrest := ih fun a' ha' => hacts a' (List.mem_append_left _ ha')
      exact hrest.step hplace (hacts a (List.mem_append_right _ List.mem_cons_self))

/-- **Places.** The results at the places of the names are those of the names in every run, exactly if no
two names have one place. -/
theorem results_agree_iff : (∀ acts : List (Act ι ρ), (∀ a ∈ acts, a.Over I) → ∀ i ∈ I,
    (Board.run (acts.map (Act.map place))).results (place i) = (Board.run acts).results i) ↔ Set.InjOn place I := by
  constructor
  · intro h i hi j hj heq
    by_contra hne
    -- what is published under the one name is found under the other
    have hrun := h [.start 0 i, .publish 0] (by simp [Act.Over, hi]) j hj
    simp [Board.run, Board.step, Board.empty, Act.map, heq, Ne.symm hne] at hrun
  · exact fun hplace acts hacts => (agree_run hplace acts hacts).results

end Publication
