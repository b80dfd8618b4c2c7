import Mathlib

/-!
# ThreatHunting.Lib.Fence

A fenced lease, on its own. A `Cell` is one thing that at most one holder may work on.
Granting it to a holder raises its generation, so a holder that was overtaken can be
told from the current one by its number alone; closing it ends all granting.

The two facts a client of a fence needs are `Holds.unique` (one holder and one
generation at a time) and `not_holds_of_superseded` (a holder once overtaken or shut
out never holds again, however the cell moves on).
-/

namespace Fence

variable {W : Type}

/-- The lease of one resource: how often it was granted, to whom, and whether it is
closed for good. -/
structure Cell (W : Type) where
  generation : Nat
  holder : Option W
  closed : Bool

/-- `w` holds the cell under the generation `g`. -/
def Holds (c : Cell W) (w : W) (g : Nat) : Prop := c.holder = some w ∧ c.generation = g

/-- A closed cell has no holder. -/
def Sound (c : Cell W) : Prop := c.closed = true → c.holder = none

/-- The cell is granted to a new holder. -/
def Grants (c c' : Cell W) : Prop :=
  c.holder = none ∧ c.closed = false ∧ ∃ w, c' = ⟨c.generation + 1, some w, false⟩

/-- The cell is closed. -/
def Closes (c c' : Cell W) : Prop := c' = ⟨c.generation, none, true⟩

/-- What may happen to a cell: nothing, a grant, a release, a closing. -/
inductive Step : Cell W → Cell W → Prop
  | refl (c) : Step c c
  | grant {c c'} : Grants c c' → Step c c'
  | release (c) : Step c ⟨c.generation, none, c.closed⟩
  | close {c c'} : Closes c c' → Step c c'

abbrev Run : Cell W → Cell W → Prop := Relation.ReflTransGen Step

theorem Holds.unique {c : Cell W} {w w' : W} {g g' : Nat} (h : Holds c w g) (h' : Holds c w' g') :
    w = w' ∧ g = g' := by
  obtain ⟨hw, hg⟩ := h
  obtain ⟨hw', hg'⟩ := h'
  exact ⟨Option.some.inj (hw.symm.trans hw'), hg.symm.trans hg'⟩

theorem Step.generation_le {c c' : Cell W} (st : Step c c') : c.generation ≤ c'.generation := by
  cases st with
  | refl => exact Nat.le_refl _
  | grant hg =>
      obtain ⟨-, -, w, rfl⟩ := hg
      exact Nat.le_succ _
  | release => exact Nat.le_refl _
  | close hc => exact Nat.le_of_eq (by rw [hc])

theorem Step.sound {c c' : Cell W} (st : Step c c') (h : Sound c) : Sound c' := by
  cases st with
  | refl => exact h
  | grant hg =>
      obtain ⟨-, -, w, rfl⟩ := hg
      intro hc
      cases hc
  | release => exact fun _ => rfl
  | close hc =>
      rw [hc]
      exact fun _ => rfl

theorem Step.closed {c c' : Cell W} (st : Step c c') (h : c.closed = true) : c'.closed = true := by
  cases st with
  | refl => exact h
  | grant hg => simp [hg.2.1] at h
  | release => exact h
  | close hc => rw [hc]

theorem Run.generation_le {c c' : Cell W} (run : Run c c') : c.generation ≤ c'.generation := by
  induction run with
  | refl => exact Nat.le_refl _
  | tail _ st ih => exact Nat.le_trans ih st.generation_le

theorem Run.sound {c c' : Cell W} (run : Run c c') (h : Sound c) : Sound c' := by
  induction run with
  | refl => exact h
  | tail _ st ih => exact st.sound ih

theorem Run.closed {c c' : Cell W} (run : Run c c') (h : c.closed = true) : c'.closed = true := by
  induction run with
  | refl => exact h
  | tail _ st ih => exact st.closed ih

/-- Once a later grant or a closing has superseded the generation `g`, nobody ever holds
the cell under `g` again. -/
theorem not_holds_of_superseded {c c₁ c₂ c₃ : Cell W} {w w' : W} {g : Nat} (hs : Sound c)
    (held : Holds c w g) (before : Run c c₁) (superseded : Grants c₁ c₂ ∨ Closes c₁ c₂)
    (after : Run c₂ c₃) : ¬Holds c₃ w' g := by
  rintro ⟨hw, hg⟩
  have h₁ : g ≤ c₁.generation := held.2 ▸ before.generation_le
  have h₃ := after.generation_le
  rcases superseded with ⟨-, -, v, rfl⟩ | hc
  · -- the generation has grown past `g` and never comes back
    simp only at h₃
    omega
  · -- the cell is closed, so nobody holds it
    have hs₂ : Sound c₂ := (Step.close hc).sound (before.sound hs)
    have hclosed : c₃.closed = true := after.closed (by rw [hc])
    rw [after.sound hs₂ hclosed] at hw
    cases hw

end Fence
