import ThreatHunting.Lib.Program
import Mathlib.Data.List.Forall2

/-!
# ThreatHunting.Lib.Refinement

One pool of clients refines another when every step of its clients is a step of theirs, or none.
What holds of all runs of the abstract pool then holds of the projections of the runs of the
concrete one.
-/

namespace Store

namespace Pool

variable {σ τ α β : Type} {S : Signature σ} {T : Signature τ}

/-- `R` relates abstract and concrete clients so that each concrete step is one abstract step, or leaves
the projected history alone. -/
structure Simulates (project : History T → History S) (R : Program S α → Program T β → Prop) : Prop where
  step : ∀ {p p' q' h h'}, R p p' → Program.Step p' h q' h' →
    ∃ q, R q q' ∧ (q = p ∧ project h' = project h ∨ Program.Step p (project h) q (project h'))

variable {project : History T → History S} {R : Program S α → Program T β → Prop}
  {starts : Program S α → Prop} {starts' : Program T β → Prop} {s₀ : σ} {t₀ : τ}

/-- A list related to one with an element in the middle has one there too. -/
theorem forall₂_split {γ δ : Type} {Q : γ → δ → Prop} {l : List γ} {bs : List δ} {b : δ} {cs : List δ}
    (h : List.Forall₂ Q l (bs ++ b :: cs)) :
    ∃ ds a es, l = ds ++ a :: es ∧ List.Forall₂ Q ds bs ∧ Q a b ∧ List.Forall₂ Q es cs := by
  have hfront := List.forall₂_take_append l bs (b :: cs) h
  have hback := List.forall₂_drop_append l bs (b :: cs) h
  obtain ⟨a, es, ha, hes, hdrop⟩ := List.forall₂_cons_right_iff.mp hback
  refine ⟨l.take bs.length, a, es, ?_, hfront, ha, hes⟩
  rw [← hdrop, List.take_append_drop]

theorem forall₂_join {γ δ : Type} {Q : γ → δ → Prop} {ds : List γ} {a : γ} {es : List γ} {bs : List δ} {b : δ}
    {cs : List δ} (hfront : List.Forall₂ Q ds bs) (hab : Q a b) (hback : List.Forall₂ Q es cs) :
    List.Forall₂ Q (ds ++ a :: es) (bs ++ b :: cs) :=
  List.rel_append hfront (.cons hab hback)

/-- Every run of the concrete clients projects to a run of the abstract ones. -/
theorem Run.refines (hR : Simulates project R) (hstart : ∀ p', starts' p' → ∃ p, starts p ∧ R p p')
    (hinit : project ⟨t₀, []⟩ = ⟨s₀, []⟩) {h : History T} {ps' : List (Program T β)}
    (run : Run starts' t₀ h ps') : ∃ ps, Run starts s₀ (project h) ps ∧ List.Forall₂ R ps ps' := by
  induction run with
  | init =>
      rw [hinit]
      exact ⟨[], .init, .nil⟩
  | start _ hp ih =>
      obtain ⟨ps, run, hps⟩ := ih
      obtain ⟨p, hp, hR⟩ := hstart _ hp
      exact ⟨p :: ps, run.start hp, .cons hR hps⟩
  | step _ st ih =>
      obtain ⟨ps, run, hps⟩ := ih
      obtain ⟨ds, p, es, rfl, hfront, hp, hback⟩ := forall₂_split hps
      obtain ⟨q, hq, ⟨rfl, heq⟩ | st'⟩ := hR.step hp st
      · rw [heq]
        exact ⟨_, run, forall₂_join hfront hq hback⟩
      · exact ⟨_, run.step st', forall₂_join hfront hq hback⟩

end Pool

end Store
