import Mathlib

/-!
# ThreatHunting.Lib.Spread

An excerpt of a list at evenly spaced positions. With integer division the `p`-th of `count`
picks from `n` items stands at `p * (n - 1) / (count - 1)`. As long as there are no more picks
than items, the positions increase strictly and stay in the list, and two picks or more
reach both ends.
-/

namespace Spread

variable {α : Type} {n count p q : Nat} {xs : List α}

/-- The position of the `p`-th of `count` picks from `n` items. -/
def position (n count p : Nat) : Nat := p * (n - 1) / max (count - 1) 1

@[simp] theorem position_zero : position n count 0 = 0 := by simp [position]

theorem position_last (hcount : 2 ≤ count) : position n count (count - 1) = n - 1 := by
  have hmax : max (count - 1) 1 = count - 1 := by omega
  rw [position, hmax]
  exact Nat.mul_div_cancel_left _ (by omega)

theorem position_lt_succ (hle : count ≤ n) (hp : p + 1 < count) :
    position n count p < position n count (p + 1) := by
  have hmax : max (count - 1) 1 = count - 1 := by omega
  have hstep : p * (n - 1) + (count - 1) ≤ (p + 1) * (n - 1) := by
    rw [Nat.succ_mul]
    omega
  show p * (n - 1) / max (count - 1) 1 < (p + 1) * (n - 1) / max (count - 1) 1
  rw [hmax]
  calc p * (n - 1) / (count - 1) < p * (n - 1) / (count - 1) + 1 := Nat.lt_succ_self _
    _ = (p * (n - 1) + (count - 1)) / (count - 1) := (Nat.add_div_right _ (by omega)).symm
    _ ≤ (p + 1) * (n - 1) / (count - 1) := Nat.div_le_div_right hstep

/-- The positions increase. -/
theorem position_lt (hle : count ≤ n) (hpq : p < q) (hq : q < count) : position n count p < position n count q := by
  induction q with
  | zero => omega
  | succ q ih =>
      rcases Nat.lt_succ_iff_lt_or_eq.mp hpq with hlt | rfl
      · exact (ih hlt (by omega)).trans (position_lt_succ hle hq)
      · exact position_lt_succ hle hq

/-- They stay in the list. -/
theorem position_lt_length (hn : 0 < n) (hp : p < count) : position n count p < n := by
  have hle : position n count p ≤ n - 1 := by
    rw [position]
    exact Nat.div_le_of_le_mul (Nat.mul_le_mul_right _ (by omega))
  omega

/-- `count` picks from a list; `none` where a position is out of range. -/
def picks (xs : List α) (count : Nat) : Option (List α) :=
  (List.range count).mapM fun p => xs[position xs.length count p]?

theorem mapM_eq_some {β : Type} {f : α → Option β} (h : ∀ a ∈ xs, (f a).isSome) :
    ∃ ys, xs.mapM f = some ys ∧ List.Forall₂ (fun a b => f a = some b) xs ys := by
  induction xs with
  | nil => exact ⟨[], rfl, .nil⟩
  | cons a xs ih =>
      rw [List.forall_mem_cons] at h
      obtain ⟨b, hb⟩ := Option.isSome_iff_exists.mp h.1
      obtain ⟨ys, hys, hall⟩ := ih h.2
      exact ⟨b :: ys, by simp [List.mapM_cons, hb, hys], .cons hb hall⟩

/-- Picking goes through a map. -/
theorem picks_map {β : Type} (f : α → β) (xs : List α) (count : Nat) :
    picks (xs.map f) count = (picks xs count).map (List.map f) := by
  have hmapM : ∀ (g : Nat → Option α) (ps : List Nat),
      ps.mapM (fun p => (g p).map f) = (ps.mapM g).map (List.map f) := by
    intro g ps
    induction ps with
    | nil => rfl
    | cons p ps ih =>
        rw [List.mapM_cons, List.mapM_cons, ih]
        cases g p with
        | none => rfl
        | some a => cases ps.mapM g <;> rfl
  simp only [picks, List.length_map, List.getElem?_map]
  exact hmapM _ _

/-- There are as many picks as asked for, each at its position. -/
theorem picks_eq_some (hle : count ≤ xs.length) :
    ∃ ys, picks xs count = some ys ∧ ys.length = count ∧
      ∀ p, p < count → ys[p]? = xs[position xs.length count p]? := by
  have hsome : ∀ p ∈ List.range count, (xs[position xs.length count p]?).isSome := by
    intro p hp
    rw [List.mem_range] at hp
    simpa using position_lt_length (by omega) hp
  obtain ⟨ys, hys, hall⟩ := mapM_eq_some hsome
  have hlen : ys.length = count := by simpa using hall.length_eq.symm
  refine ⟨ys, hys, hlen, fun p hp => ?_⟩
  have := List.Forall₂.get hall (i := p) (by simpa using hp) (by omega)
  simp only [List.get_eq_getElem, List.getElem_range] at this
  rw [this, List.getElem?_eq_getElem (by omega)]

/-- **Excerpt.** The picks stand in the list in their order, no item twice, and include both ends. -/
theorem picks_spec (hle : count ≤ xs.length) :
    ∃ ys, picks xs count = some ys ∧ ys.length = count ∧ ys.Sublist xs ∧
      (0 < count → ys.head? = xs.head?) ∧ (2 ≤ count → ys.getLast? = xs.getLast?) := by
  obtain ⟨ys, hys, hlen, hget⟩ := picks_eq_some hle
  refine ⟨ys, hys, hlen, ?_, fun hpos => ?_, fun htwo => ?_⟩
  · have hlt : ∀ p : Fin ys.length, position xs.length count p < xs.length := by
      intro p
      have hp : p.val < count := hlen ▸ p.isLt
      exact position_lt_length (by omega) hp
    have hmono : StrictMono fun p : Fin ys.length => (⟨position xs.length count p, hlt p⟩ : Fin xs.length) :=
      fun p q hpq => position_lt hle hpq (hlen ▸ q.isLt)
    refine List.sublist_iff_exists_fin_orderEmbedding_get_eq.mpr ⟨OrderEmbedding.ofStrictMono _ hmono, fun p => ?_⟩
    have := hget p (hlen ▸ p.isLt)
    rw [List.getElem?_eq_getElem p.isLt, List.getElem?_eq_getElem (hlt p)] at this
    exact Option.some.inj this
  · rw [List.head?_eq_getElem?, List.head?_eq_getElem?, hget 0 hpos, position_zero]
  · rw [List.getLast?_eq_getElem?, List.getLast?_eq_getElem?, hlen, hget _ (by omega), position_last htwo]

end Spread
