import Mathlib

/-!
# ThreatHunting.Lib.Bisect

Bisection of an ordered list, as `bisect_left` and `bisect_right` do it. Where what passes a
test comes first, the position found is the number of items that pass.
-/

namespace Bisect

variable {α : Type}

/-- The halving loop, between `lo` and `hi`. -/
def loop (before : α → Bool) (xs : List α) : Nat → Nat → Nat → Nat
  | 0, lo, _ => lo
  | fuel + 1, lo, hi =>
      if lo < hi then
        match xs[(lo + hi) / 2]? with
        | some a => if before a then loop before xs fuel ((lo + hi) / 2 + 1) hi else loop before xs fuel lo ((lo + hi) / 2)
        | none => lo
      else lo

/-- The position where the items that pass end. -/
def bisect (before : α → Bool) (xs : List α) : Nat := loop before xs xs.length 0 xs.length

variable {before : α → Bool} {xs : List α}

/-- The items that pass are those below their number. -/
theorem before_getElem_iff (h : xs.Pairwise fun a b => before b = true → before a = true) {i : Nat}
    (hi : i < xs.length) : before xs[i] = true ↔ i < xs.countP before := by
  induction xs generalizing i with
  | nil => simp at hi
  | cons a xs ih =>
      obtain ⟨hfirst, hrest⟩ := List.pairwise_cons.mp h
      cases ha : before a with
      | true =>
          rw [List.countP_cons_of_pos ha]
          cases i with
          | zero => simp [ha]
          | succ i => simpa using ih hrest (by simpa using hi)
      | false =>
          have hnone : ∀ b ∈ xs, before b = false := by
            intro b hb
            by_contra hpass
            simp [hfirst b hb (by simpa using hpass)] at ha
          have hzero : xs.countP before = 0 := List.countP_eq_zero.mpr fun b hb => by simp [hnone b hb]
          rw [List.countP_cons_of_neg (by simp [ha]), hzero]
          cases i with
          | zero => simp [ha]
          | succ i => simp [hnone]

/-- The loop keeps the number between its bounds, by induction on the turns. -/
theorem loop_eq (h : xs.Pairwise fun a b => before b = true → before a = true) (fuel : Nat) {lo hi : Nat}
    (hfuel : hi - lo ≤ fuel) (hlo : lo ≤ xs.countP before) (hhi : xs.countP before ≤ hi) (hle : hi ≤ xs.length) :
    loop before xs fuel lo hi = xs.countP before := by
  induction fuel generalizing lo hi with
  | zero =>
      show lo = _
      omega
  | succ fuel ih =>
      rw [loop]
      split
      next hlt =>
        have hmid : (lo + hi) / 2 < xs.length := by omega
        have hpass := before_getElem_iff h hmid
        rw [List.getElem?_eq_getElem hmid]
        show (if before xs[(lo + hi) / 2] then _ else _) = _
        split
        next hb => exact ih (by omega) (hpass.mp hb) hhi hle
        next hb => exact ih (by omega) hlo (not_lt.mp fun hlt => hb (hpass.mpr hlt)) (by omega)
      next hge => omega

/-- **Bisection** finds the number of items that pass. -/
theorem bisect_eq (h : xs.Pairwise fun a b => before b = true → before a = true) :
    bisect before xs = xs.countP before :=
  loop_eq h xs.length (by omega) (Nat.zero_le _) List.countP_le_length (Nat.le_refl _)

section Ordered

variable [LinearOrder α]

/-- `bisect_left`. -/
def bisect_left (xs : List α) (x : α) : Nat := bisect (· < x) xs

/-- `bisect_right`. -/
def bisect_right (xs : List α) (x : α) : Nat := bisect (· ≤ x) xs

variable (hsorted : xs.Pairwise (· ≤ ·)) (x : α)
include hsorted

theorem bisect_left_eq : bisect_left xs x = xs.countP (· < x) :=
  bisect_eq (hsorted.imp fun hab hb => by simpa using hab.trans_lt (of_decide_eq_true hb))

theorem bisect_right_eq : bisect_right xs x = xs.countP (· ≤ x) :=
  bisect_eq (hsorted.imp fun hab hb => by simpa using hab.trans (of_decide_eq_true hb))

/-- Between the two stand the items equal to `x`. -/
theorem bisect_right_sub_left : bisect_right xs x - bisect_left xs x = xs.countP (· = x) ∧
    bisect_left xs x ≤ bisect_right xs x := by
  have hsum : xs.countP (· ≤ x) = xs.countP (· < x) + xs.countP (· = x) := by
    clear hsorted
    induction xs with
    | nil => rfl
    | cons a xs ih =>
        rw [List.countP_cons, List.countP_cons, List.countP_cons, ih]
        rcases lt_trichotomy a x with hlt | rfl | hgt
        · simp [hlt, hlt.le, hlt.ne]; omega
        · simp; omega
        · simp [hgt.not_ge, hgt.not_gt, hgt.ne']
  rw [bisect_left_eq hsorted, bisect_right_eq hsorted]
  omega

/-- After both stand the items above `x`. -/
theorem length_sub_bisect_right : xs.length - bisect_right xs x = xs.countP (x < ·) := by
  have hsum := List.length_eq_countP_add_countP (fun a => decide (a ≤ x)) (l := xs)
  have hgt : xs.countP (fun a => decide ¬decide (a ≤ x) = true) = xs.countP (x < ·) :=
    List.countP_congr fun a _ => by simp
  rw [bisect_right_eq hsorted]
  omega

end Ordered

end Bisect
