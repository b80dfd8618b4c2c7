import Mathlib

/-!
# Formulas with unknown terms, and the alternatives that bound them

A `Formula` is Boolean over atoms whose truth is known and over *free* terms
whose truth is not: every occurrence of a free term takes a value of its own.
`Attains` says which values a formula can take once the atoms are fixed.

`Constraints` is a domain of bounds that can be met. A list of bounds `Covers` a
formula when it describes exactly the worlds in which the formula can be true;
the rules compute such a list along the formula.
-/

/-- A Boolean formula over atoms `α` and free terms. -/
inductive Formula (α : Type) : Type
  | free
  | atom (a : α)
  | not (f : Formula α)
  | and (f g : Formula α)
  | or (f g : Formula α)
  deriving DecidableEq, Repr

namespace Formula

variable {α : Type}

/-- The number of occurrences of free terms. -/
def frees : Formula α → Nat
  | free => 1
  | atom _ => 0
  | not f => f.frees
  | and f g => f.frees + g.frees
  | or f g => f.frees + g.frees

/-- The value of a formula, when `sat` decides the atoms and `v` gives the value of
each occurrence of a free term, numbered from left to right. -/
def eval (sat : α → Bool) : Formula α → (Nat → Bool) → Bool
  | free, v => v 0
  | atom a, _ => sat a
  | not f, v => !f.eval sat v
  | and f g, v => f.eval sat v && g.eval sat fun i => v (f.frees + i)
  | or f g, v => f.eval sat v || g.eval sat fun i => v (f.frees + i)

/-- Can the formula take the value `b`? -/
def Attains (sat : α → Bool) : Formula α → Bool → Prop
  | free, _ => True
  | atom a, b => sat a = b
  | not f, b => f.Attains sat (!b)
  | and f g, b => ∃ x y, f.Attains sat x ∧ g.Attains sat y ∧ (x && y) = b
  | or f g, b => ∃ x y, f.Attains sat x ∧ g.Attains sat y ∧ (x || y) = b

/-- The atoms of a formula. -/
def atoms : Formula α → List α
  | free => []
  | atom a => [a]
  | not f => f.atoms
  | and f g => f.atoms ++ g.atoms
  | or f g => f.atoms ++ g.atoms

/-- Two valuations put one after the other. -/
def joinAt (n : Nat) (v w : Nat → Bool) : Nat → Bool := fun i => if i < n then v i else w (i - n)

variable {sat : α → Bool}

/-- Only the values of the formula's own occurrences matter. -/
theorem eval_congr {f : Formula α} :
    ∀ {v w : Nat → Bool}, (∀ i < f.frees, v i = w i) → f.eval sat v = f.eval sat w := by
  induction f with
  | free => exact fun h => h 0 (by simp [frees])
  | atom a => exact fun _ => rfl
  | not f ih => exact fun h => by rw [eval, eval, ih h]
  | and f g ihf ihg =>
      intro v w h
      simp only [frees] at h
      rw [eval, eval, ihf fun i hi => h i (by omega), ihg fun i hi => h (f.frees + i) (by omega)]
  | or f g ihf ihg =>
      intro v w h
      simp only [frees] at h
      rw [eval, eval, ihf fun i hi => h i (by omega), ihg fun i hi => h (f.frees + i) (by omega)]

theorem eval_joinAt_left (f : Formula α) (v w : Nat → Bool) :
    f.eval sat (joinAt f.frees v w) = f.eval sat v :=
  eval_congr fun i hi => by rw [joinAt, if_pos hi]

theorem joinAt_shift (n : Nat) (v w : Nat → Bool) : (fun i => joinAt n v w (n + i)) = w := by
  funext i
  rw [joinAt, if_neg (by omega)]
  congr 1
  omega

/-- The values a formula takes under some valuation are those it attains. -/
theorem exists_eval_iff {f : Formula α} : ∀ {b : Bool}, (∃ v, f.eval sat v = b) ↔ f.Attains sat b := by
  induction f with
  | free =>
      intro b
      exact ⟨fun _ => trivial, fun _ => ⟨fun _ => b, rfl⟩⟩
  | atom a =>
      intro b
      exact ⟨fun ⟨_, h⟩ => h, fun h => ⟨fun _ => false, h⟩⟩
  | not f ih =>
      intro b
      rw [Attains, ← ih]
      simp [eval, Bool.not_eq_eq_eq_not]
  | and f g ihf ihg =>
      intro b
      constructor
      · intro ⟨v, h⟩
        exact ⟨_, _, ihf.mp ⟨v, rfl⟩, ihg.mp ⟨fun i => v (f.frees + i), rfl⟩, h⟩
      · intro ⟨x, y, hx, hy, h⟩
        obtain ⟨v, rfl⟩ := ihf.mpr hx
        obtain ⟨w, rfl⟩ := ihg.mpr hy
        refine ⟨joinAt f.frees v w, ?_⟩
        rw [eval, eval_joinAt_left, joinAt_shift, h]
  | or f g ihf ihg =>
      intro b
      constructor
      · intro ⟨v, h⟩
        exact ⟨_, _, ihf.mp ⟨v, rfl⟩, ihg.mp ⟨fun i => v (f.frees + i), rfl⟩, h⟩
      · intro ⟨x, y, hx, hy, h⟩
        obtain ⟨v, rfl⟩ := ihf.mpr hx
        obtain ⟨w, rfl⟩ := ihg.mpr hy
        refine ⟨joinAt f.frees v w, ?_⟩
        rw [eval, eval_joinAt_left, joinAt_shift, h]

theorem attains_some (sat : α → Bool) (f : Formula α) : ∃ b, f.Attains sat b :=
  ⟨_, exists_eval_iff.mp ⟨fun _ => false, rfl⟩⟩

/-- A formula without atoms can be true and can be false. -/
theorem attains_of_atoms_eq_nil {f : Formula α} (h : f.atoms = []) : ∀ b, f.Attains sat b := by
  induction f with
  | free => exact fun _ => trivial
  | atom a => simp [atoms] at h
  | not f ih => exact fun b => ih h (!b)
  | and f g ihf ihg =>
      rw [atoms, List.append_eq_nil_iff] at h
      exact fun b => ⟨b, b, ihf h.1 b, ihg h.2 b, by simp⟩
  | or f g ihf ihg =>
      rw [atoms, List.append_eq_nil_iff] at h
      exact fun b => ⟨b, b, ihf h.1 b, ihg h.2 b, by simp⟩

theorem attains_and_true {f g : Formula α} :
    (f.and g).Attains sat true ↔ f.Attains sat true ∧ g.Attains sat true := by
  simp [Attains]

theorem attains_or_true {f g : Formula α} :
    (f.or g).Attains sat true ↔ f.Attains sat true ∨ g.Attains sat true := by
  constructor
  · intro ⟨x, y, hx, hy, h⟩
    rcases Bool.or_eq_true_iff.mp h with rfl | rfl
    · exact .inl hx
    · exact .inr hy
  · rintro (h | h)
    · obtain ⟨b, hb⟩ := g.attains_some sat
      exact ⟨true, b, h, hb, rfl⟩
    · obtain ⟨b, hb⟩ := f.attains_some sat
      exact ⟨b, true, hb, h, by simp⟩

end Formula

/-! ### Bounds -/

/-- A domain of bounds `C` on worlds `W`: one that excludes nothing, and the meet of
two bounds, which fails when no world satisfies both. -/
structure Constraints (C W : Type) where
  models : C → W → Prop
  top : C
  meet : C → C → Option C
  models_top : ∀ w, models top w
  models_meet : ∀ c d w, (∃ m ∈ meet c d, models m w) ↔ models c w ∧ models d w

namespace Constraints

variable {C W α : Type} (K : Constraints C W) (sat : W → α → Bool)

/-- The bounds `cs` describe exactly the worlds in which `f` can be true. -/
def Covers (cs : List C) (f : Formula α) : Prop :=
  ∀ w, (∃ c ∈ cs, K.models c w) ↔ f.Attains (sat w) true

variable {K sat} {cs ds : List C} {f g : Formula α}

/-- Anything that can be true in every world is covered by the top bound. -/
theorem covers_top (h : ∀ w, f.Attains (sat w) true) : K.Covers sat [K.top] f := by
  intro w
  simp [h w, K.models_top]

theorem covers_atom {c : C} {a : α} (h : ∀ w, K.models c w ↔ sat w a = true) :
    K.Covers sat [c] (.atom a) := by
  intro w
  simp [Formula.Attains, h w]

theorem Covers.or (hf : K.Covers sat cs f) (hg : K.Covers sat ds g) {us : List C}
    (hu : ∀ c, c ∈ us ↔ c ∈ cs ∨ c ∈ ds) : K.Covers sat us (f.or g) := by
  intro w
  rw [Formula.attains_or_true, ← hf w, ← hg w]
  constructor
  · intro ⟨c, hc, hm⟩
    rcases (hu c).mp hc with h | h
    · exact .inl ⟨c, h, hm⟩
    · exact .inr ⟨c, h, hm⟩
  · rintro (⟨c, hc, hm⟩ | ⟨c, hc, hm⟩)
    · exact ⟨c, (hu c).mpr (.inl hc), hm⟩
    · exact ⟨c, (hu c).mpr (.inr hc), hm⟩

theorem Covers.and (hf : K.Covers sat cs f) (hg : K.Covers sat ds g) {ms : List C}
    (hm : ∀ m, m ∈ ms ↔ ∃ c ∈ cs, ∃ d ∈ ds, m ∈ K.meet c d) : K.Covers sat ms (f.and g) := by
  intro w
  rw [Formula.attains_and_true, ← hf w, ← hg w]
  constructor
  · intro ⟨m, hmem, hmod⟩
    obtain ⟨c, hc, d, hd, hmeet⟩ := (hm m).mp hmem
    obtain ⟨h₁, h₂⟩ := (K.models_meet c d w).mp ⟨m, hmeet, hmod⟩
    exact ⟨⟨c, hc, h₁⟩, ⟨d, hd, h₂⟩⟩
  · intro ⟨⟨c, hc, h₁⟩, ⟨d, hd, h₂⟩⟩
    obtain ⟨m, hmeet, hmod⟩ := (K.models_meet c d w).mpr ⟨h₁, h₂⟩
    exact ⟨m, (hm m).mpr ⟨c, hc, d, hd, hmeet⟩, hmod⟩

end Constraints
