import ThreatHunting.Lib.Fallible

/-!
# ThreatHunting.Lib.Unfolding

Things that unfold into parts, which unfold in turn. What a thing is made of may itself have to be
found out, which may fail. `collect` goes through all of it, in so many nested calls.

It succeeds exactly if nothing is nested too deep and all of it unfolds, and then finds exactly what
the nested things have of their own. Where the parts of a thing are smaller than it is, some number
of calls is enough.
-/

namespace Unfolding

open Fallible

variable {α β ε : Type} (parts : α → Except ε (List α)) (own : α → List β) (deep : ε)

/-- What a thing has of its own, and what its parts have, in so many nested calls. -/
def collect : Nat → α → Except ε (List β)
  | 0, _ => .error deep
  | calls + 1, a => do
      let found ← (← parts a).mapM (collect calls)
      return own a ++ found.flatten

/-- The things nested in a thing, so many levels down. -/
inductive Nested : Nat → α → α → Prop
  | self (a : α) : Nested 0 a a
  | part {n : Nat} {a b c : α} {bs : List α} (hparts : parts a = .ok bs) (hb : b ∈ bs) (hnested : Nested n b c) :
      Nested (n + 1) a c

/-- Nothing in a thing is nested deeper than the calls go, and all of it unfolds. -/
def Unfolds (calls : Nat) (a : α) : Prop := ∀ n b, Nested parts n a b → n < calls ∧ Succeeds (parts b)

variable {parts own deep} {calls n : Nat} {a b : α} {bs : List α}

theorem nested_zero : Nested parts 0 a b ↔ a = b := by
  constructor
  · intro h
    cases h
    rfl
  · rintro rfl
    exact .self a

theorem nested_succ (hparts : parts a = .ok bs) : Nested parts (n + 1) a b ↔ ∃ c ∈ bs, Nested parts n c b := by
  constructor
  · intro h
    cases h with
    | part hparts' hc hnested =>
        rw [hparts] at hparts'
        cases hparts'
        exact ⟨_, hc, hnested⟩
  · intro ⟨c, hc, hnested⟩
    exact .part hparts hc hnested

theorem not_unfolds_zero : ¬Unfolds parts 0 a := fun h => absurd (h 0 a (.self a)).1 (Nat.lt_irrefl 0)

/-- A thing unfolds if it has parts and they do, in one call less. -/
theorem unfolds_succ : Unfolds parts (calls + 1) a ↔ ∃ bs, parts a = .ok bs ∧ ∀ b ∈ bs, Unfolds parts calls b := by
  constructor
  · intro h
    obtain ⟨bs, hparts⟩ := (h 0 a (.self a)).2
    refine ⟨bs, hparts, fun b hb n c hnested => ?_⟩
    have hc := h (n + 1) c (.part hparts hb hnested)
    exact ⟨Nat.lt_of_succ_lt_succ hc.1, hc.2⟩
  · intro ⟨bs, hparts, hall⟩ n c hnested
    cases n with
    | zero =>
        rw [← nested_zero.mp hnested]
        exact ⟨Nat.succ_pos calls, bs, hparts⟩
    | succ n =>
        obtain ⟨b, hb, hnested⟩ := (nested_succ hparts).mp hnested
        have hc := hall b hb n c hnested
        exact ⟨Nat.succ_lt_succ hc.1, hc.2⟩

theorem collect_succ (hparts : parts a = .ok bs) :
    collect parts own deep (calls + 1) a = do
      let found ← bs.mapM (collect parts own deep calls)
      return own a ++ found.flatten := by
  rw [collect, hparts, ok_bind]

/-- **Success.** Collecting succeeds exactly where everything unfolds in the calls there are. -/
theorem succeeds_collect : Succeeds (collect parts own deep calls a) ↔ Unfolds parts calls a := by
  induction calls generalizing a with
  | zero => exact iff_of_false (not_succeeds_error deep) not_unfolds_zero
  | succ calls ih =>
      rw [unfolds_succ]
      cases hparts : parts a with
      | error e =>
          rw [collect, hparts, error_bind]
          exact iff_of_false (not_succeeds_error e) nofun
      | ok bs =>
          rw [collect_succ hparts, succeeds_bind (P := True) fun found _ => iff_of_true (succeeds_pure _) trivial,
            succeeds_mapM]
          simp only [ih, and_true, Except.ok.injEq, exists_eq_left']

/-- **Content.** What is collected is what the things nested in a thing have of their own. -/
theorem mem_collect {found : List β} (h : collect parts own deep calls a = .ok found) (x : β) :
    x ∈ found ↔ ∃ n b, Nested parts n a b ∧ x ∈ own b := by
  induction calls generalizing a found with
  | zero => cases h
  | succ calls ih =>
      obtain ⟨bs, hparts, -⟩ := unfolds_succ.mp (succeeds_collect.mp ⟨found, h⟩)
      rw [collect_succ hparts] at h
      obtain ⟨lists, hlists, h⟩ := bind_eq_ok.mp h
      cases h
      have hmem := mem_of_mapM hlists
      rw [List.mem_append, List.mem_flatten]
      constructor
      · rintro (hx | ⟨list, hlist, hx⟩)
        · exact ⟨0, a, .self a, hx⟩
        · obtain ⟨b, hb, hok⟩ := hmem.1 list hlist
          obtain ⟨n, c, hnested, hx⟩ := (ih hok).mp hx
          exact ⟨n + 1, c, .part hparts hb hnested, hx⟩
      · intro ⟨n, c, hnested, hx⟩
        cases n with
        | zero =>
            rw [nested_zero.mp hnested]
            exact .inl hx
        | succ n =>
            obtain ⟨b, hb, hnested⟩ := (nested_succ hparts).mp hnested
            obtain ⟨list, hlist, hok⟩ := hmem.2 b hb
            exact .inr ⟨list, hlist, (ih hok).mpr ⟨n, c, hnested, hx⟩⟩

/-- A bound for each thing of a list is a bound for all of them. -/
theorem exists_bound {P : α → Nat → Prop} (hmono : ∀ b m n, m ≤ n → P b m → P b n) (h : ∀ b ∈ bs, ∃ n, P b n) :
    ∃ n, ∀ b ∈ bs, P b n := by
  induction bs with
  | nil => exact ⟨0, nofun⟩
  | cons b bs ih =>
      obtain ⟨hfirst, hrest⟩ := List.forall_mem_cons.mp h
      obtain ⟨m, hm⟩ := hfirst
      obtain ⟨n, hn⟩ := ih hrest
      refine ⟨max m n, List.forall_mem_cons.mpr ⟨hmono b m _ (Nat.le_max_left m n) hm, fun c hc => ?_⟩⟩
      exact hmono c n _ (Nat.le_max_right m n) (hn c hc)

/-- **Depth.** Where parts are smaller, what is nested in a thing has a depth. -/
theorem exists_depth {r : α → α → Prop} (hwf : WellFounded r) (hsmaller : ∀ a bs b, parts a = .ok bs → b ∈ bs → r b a)
    (a : α) : ∃ depth, ∀ n b, Nested parts n a b → n < depth := by
  induction a using hwf.induction with
  | _ a ih =>
      cases hparts : parts a with
      | error e =>
          refine ⟨1, fun n b hnested => ?_⟩
          cases hnested with
          | self => exact Nat.one_pos
          | part hok => simp [hparts] at hok
      | ok bs =>
          obtain ⟨depth, hdepth⟩ := exists_bound (P := fun b depth => ∀ n c, Nested parts n b c → n < depth)
            (fun _ _ _ hle h n c hnested => (h n c hnested).trans_le hle)
            fun b hb => ih b (hsmaller a bs b hparts hb)
          refine ⟨depth + 1, fun n c hnested => ?_⟩
          cases n with
          | zero => exact Nat.succ_pos depth
          | succ n =>
              obtain ⟨b, hb, hnested⟩ := (nested_succ hparts).mp hnested
              exact Nat.succ_lt_succ (hdepth b hb n c hnested)

end Unfolding
