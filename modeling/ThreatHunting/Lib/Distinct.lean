import Mathlib

/-!
# ThreatHunting.Lib.Distinct

The loop that keeps the first element of every key and sets the repeated ones aside, and sorting by a key
that no two elements share. Positions count from the start of the whole input, so that what is kept and what
is set aside can be told apart by where it stood.
-/

namespace Distinct

variable {α κ : Type} [DecidableEq κ] (key : α → κ)

/-- The elements whose key is new and those whose key was seen, each with its position; `i` is the position
of the next element. -/
def split : List κ → Nat → List α → List (Nat × α) × List (Nat × α)
  | _, _, [] => ([], [])
  | seen, i, a :: as =>
      if key a ∈ seen then
        let r := split seen (i + 1) as
        (r.1, (i, a) :: r.2)
      else
        let r := split (key a :: seen) (i + 1) as
        ((i, a) :: r.1, r.2)

/-- What is kept of a whole list. -/
def kept (as : List α) : List (Nat × α) := (split key [] 0 as).1

/-- What is set aside. -/
def repeated (as : List α) : List (Nat × α) := (split key [] 0 as).2

/-- Where a key stands first. -/
def position (keys : List κ) (k : κ) : Nat := keys.idxOf k

variable {key}

/-- Every position is kept or set aside, once. -/
theorem perm_positions (seen : List κ) (i : Nat) (as : List α) :
    ((split key seen i as).1.map (·.1) ++ (split key seen i as).2.map (·.1)).Perm (List.range' i as.length) := by
  induction as generalizing seen i with
  | nil => exact .refl _
  | cons a as ih =>
      rw [split, List.length_cons, List.range'_succ]
      split
      · exact List.perm_middle.trans (.cons i (ih seen (i + 1)))
      · exact .cons i (ih (key a :: seen) (i + 1))

/-- An element is kept exactly if it is the first with its key, and its key had not been seen. -/
theorem mem_split {seen : List κ} {i k : Nat} {as : List α} {a : α} :
    (k, a) ∈ (split key seen i as).1 ↔
      ∃ j, k = i + j ∧ as[j]? = some a ∧ key a ∉ seen ∧ (as.map key).idxOf (key a) = j := by
  induction as generalizing seen i with
  | nil => simp [split]
  | cons b as ih =>
      -- an element behind `b` is first with its key in the whole list if its key is not that of `b`
      have hbehind : ∀ seen' : List κ, (∃ j, k = i + 1 + j ∧ as[j]? = some a ∧ key a ∉ seen' ∧ (as.map key).idxOf (key a) = j) ∧
          key b ≠ key a ↔ ∃ j, k = i + (j + 1) ∧ (b :: as)[j + 1]? = some a ∧ key a ∉ seen' ∧
            ((b :: as).map key).idxOf (key a) = j + 1 := by
        intro seen'
        rw [List.map_cons]
        constructor
        · intro ⟨⟨j, hk, ha, hseen, hfirst⟩, hne⟩
          exact ⟨j, by omega, ha, hseen, by rw [List.idxOf_cons_ne _ hne, hfirst]⟩
        · intro ⟨j, hk, ha, hseen, hfirst⟩
          have hne : key b ≠ key a := by
            intro heq
            rw [heq, List.idxOf_cons_self] at hfirst
            omega
          rw [List.idxOf_cons_ne _ hne] at hfirst
          exact ⟨⟨j, by omega, ha, hseen, by omega⟩, hne⟩
      have hcases : ∀ P : Nat → Prop, (∃ j, P j) ↔ P 0 ∨ ∃ j, P (j + 1) := by
        intro P
        constructor
        · intro ⟨j, hj⟩
          cases j with
          | zero => exact .inl hj
          | succ j => exact .inr ⟨j, hj⟩
        · intro h
          exact h.elim (fun h => ⟨0, h⟩) fun ⟨j, hj⟩ => ⟨j + 1, hj⟩
      rw [hcases, ← hbehind]
      rw [split]
      by_cases hb : key b ∈ seen
      · rw [if_pos hb, ih]
        constructor
        · intro h
          refine .inr ⟨h, ?_⟩
          obtain ⟨j, -, -, hseen, -⟩ := h
          exact fun heq => hseen (heq ▸ hb)
        · intro h
          refine h.elim (fun ⟨_, ha, hseen, _⟩ => ?_) And.left
          cases ha
          exact absurd hb hseen
      · rw [if_neg hb, List.mem_cons, ih]
        constructor
        · intro h
          refine h.elim (fun heq => ?_) fun ⟨j, hk, ha, hseen, hfirst⟩ => ?_
          · cases heq
            exact .inl ⟨rfl, rfl, hb, by rw [List.map_cons, List.idxOf_cons_self]⟩
          · rw [List.mem_cons, not_or] at hseen
            exact .inr ⟨⟨j, hk, ha, hseen.2, hfirst⟩, Ne.symm hseen.1⟩
        · intro h
          refine h.elim (fun ⟨hk, ha, _, _⟩ => ?_) fun ⟨⟨j, hk, ha, hseen, hfirst⟩, hne⟩ => ?_
          · cases ha
            exact .inl (by rw [hk, Nat.add_zero])
          · refine .inr ⟨j, hk, ha, ?_, hfirst⟩
            rw [List.mem_cons, not_or]
            exact ⟨Ne.symm hne, hseen⟩

theorem mem_kept {k : Nat} {as : List α} {a : α} :
    (k, a) ∈ kept key as ↔ as[k]? = some a ∧ position (as.map key) (key a) = k := by
  rw [kept, mem_split]
  constructor
  · intro ⟨j, hk, ha, _, hfirst⟩
    rw [Nat.zero_add] at hk
    subst hk
    exact ⟨ha, hfirst⟩
  · intro ⟨ha, hfirst⟩
    exact ⟨k, (Nat.zero_add k).symm, ha, List.not_mem_nil, hfirst⟩

/-- The positions of what is set aside rise, from `i` on. -/
theorem pairwise_repeated (seen : List κ) (i : Nat) (as : List α) :
    ((split key seen i as).2.map (·.1)).Pairwise (· < ·) ∧ ∀ k ∈ (split key seen i as).2.map (·.1), i ≤ k := by
  induction as generalizing seen i with
  | nil => exact ⟨.nil, nofun⟩
  | cons a as ih =>
      rw [split]
      split
      · obtain ⟨hpairwise, hle⟩ := ih seen (i + 1)
        refine ⟨List.pairwise_cons.mpr ⟨hle, hpairwise⟩, ?_⟩
        rw [List.map_cons, List.forall_mem_cons]
        exact ⟨le_rfl, fun k hk => Nat.le_of_succ_le (hle k hk)⟩
      · obtain ⟨hpairwise, hle⟩ := ih (key a :: seen) (i + 1)
        exact ⟨hpairwise, fun k hk => Nat.le_of_succ_le (hle k hk)⟩

theorem getElem?_of_mem_repeated {seen : List κ} {i k : Nat} {as : List α} {a : α}
    (h : (k, a) ∈ (split key seen i as).2) : ∃ j, k = i + j ∧ as[j]? = some a := by
  induction as generalizing seen i with
  | nil => cases h
  | cons b as ih =>
      rw [split] at h
      split at h
      · rw [List.mem_cons] at h
        refine h.elim (fun heq => ?_) fun h => ?_
        · cases heq
          exact ⟨0, rfl, rfl⟩
        · obtain ⟨j, hk, ha⟩ := ih h
          exact ⟨j + 1, by omega, ha⟩
      · obtain ⟨j, hk, ha⟩ := ih h
        exact ⟨j + 1, by omega, ha⟩

theorem idxOf_le {keys : List κ} {k : Nat} {x : κ} (h : keys[k]? = some x) : keys.idxOf x ≤ k := by
  by_contra hlt
  obtain ⟨hk, hx⟩ := List.getElem?_eq_some_iff.mp h
  have hne := List.not_of_lt_findIdx (Nat.lt_of_not_le hlt)
  simp [hx] at hne

/-- An element is set aside exactly if an element of its key stands before it. -/
theorem mem_repeated {k : Nat} {as : List α} {a : α} :
    (k, a) ∈ repeated key as ↔ as[k]? = some a ∧ position (as.map key) (key a) < k := by
  have hall : ((kept key as).map (·.1) ++ (repeated key as).map (·.1)).Perm (List.range' 0 as.length) :=
    perm_positions [] 0 as
  have hdisjoint := List.disjoint_of_nodup_append (hall.nodup_iff.mpr List.nodup_range')
  constructor
  · intro h
    obtain ⟨j, hk, ha⟩ := getElem?_of_mem_repeated h
    rw [Nat.zero_add] at hk
    subst hk
    refine ⟨ha, Nat.lt_of_le_of_ne (idxOf_le ?_) fun heq => ?_⟩
    · rw [List.getElem?_map, ha, Option.map_some]
    · exact hdisjoint (List.mem_map_of_mem (f := (·.1)) (mem_kept.mpr ⟨ha, heq⟩)) (List.mem_map_of_mem h)
  · intro ⟨ha, hlt⟩
    have hmem : k ∈ List.range' 0 as.length := by
      rw [List.mem_range'_1]
      exact ⟨k.zero_le, by simpa using (List.getElem?_eq_some_iff.mp ha).1⟩
    rw [← hall.mem_iff, List.mem_append, List.mem_map, List.mem_map] at hmem
    refine hmem.elim (fun ⟨⟨j, b⟩, hb, hj⟩ => ?_) fun ⟨⟨j, b⟩, hb, hj⟩ => ?_
    · obtain ⟨hb, hfirst⟩ := mem_kept.mp hb
      dsimp only at hj
      subst hj
      rw [Option.some.inj (hb.symm.trans ha)] at hfirst
      omega
    · obtain ⟨i, hi, hb'⟩ := getElem?_of_mem_repeated hb
      dsimp only at hj
      subst hj
      rw [hi, Nat.zero_add] at ha
      rwa [Option.some.inj (hb'.symm.trans ha)] at hb

/-- The positions of a list of keys that hold a key another position before them holds. -/
def repeats (keys : List κ) : List Nat :=
  (List.range keys.length).filter fun i => keys[i]?.any fun k => position keys k < i

theorem repeated_positions (as : List α) : (repeated key as).map (·.1) = repeats (as.map key) := by
  have hlt : (repeats (as.map key)).Pairwise (· < ·) := List.pairwise_lt_range.filter _
  have hmem : ∀ k, k ∈ (repeated key as).map (·.1) ↔ k ∈ repeats (as.map key) := by
    intro k
    rw [List.mem_map, repeats, List.mem_filter, List.mem_range, List.getElem?_map, Option.any_map]
    constructor
    · intro ⟨⟨j, a⟩, ha, hj⟩
      dsimp only at hj
      subst hj
      obtain ⟨ha, hfirst⟩ := mem_repeated.mp ha
      rw [List.length_map, ha]
      exact ⟨(List.getElem?_eq_some_iff.mp ha).1, by simpa using hfirst⟩
    · intro ⟨_, h⟩
      rw [Option.any_eq_true] at h
      obtain ⟨a, ha, hfirst⟩ := h
      exact ⟨(k, a), mem_repeated.mpr ⟨ha, by simpa using hfirst⟩, rfl⟩
  have hsorted : ((repeated key as).map (·.1)).Pairwise (· < ·) := (pairwise_repeated [] 0 as).1
  exact List.Perm.eq_of_pairwise (fun a b _ _ hab hba => absurd hab (Nat.lt_asymm hba)) hsorted hlt
    ((List.perm_ext_iff_of_nodup (hsorted.imp Nat.ne_of_lt) (hlt.imp Nat.ne_of_lt)).mpr hmem)

/-- What is set aside are the elements at these positions. -/
theorem repeated_keys (as : List α) :
    (repeated key as).map (key ·.2) = (repeats (as.map key)).filterMap ((as.map key)[·]?) := by
  rw [← repeated_positions, List.filterMap_map]
  rw [← List.filterMap_eq_map']
  refine List.filterMap_congr ?_
  intro ⟨k, a⟩ ha
  rw [Function.comp_apply, List.getElem?_map, (mem_repeated.mp ha).1, Option.map_some]

/-- What is kept of a list has no two elements of one key. -/
theorem nodup_kept (as : List α) : ((kept key as).map (key ·.2)).Nodup := by
  have hpositions : ((kept key as).map (·.1)).Nodup :=
    ((perm_positions [] 0 as).nodup_iff.mpr List.nodup_range').of_append_left
  refine List.Nodup.map_on ?_ (List.Nodup.of_map _ hpositions)
  intro ⟨j, a⟩ ha ⟨k, b⟩ hb heq
  -- two kept elements of one key stand at one position
  obtain ⟨ha, hj⟩ := mem_kept.mp ha
  obtain ⟨hb, hk⟩ := mem_kept.mp hb
  have hjk : j = k := by
    rw [← hj, ← hk]
    exact congrArg (position (as.map key)) heq
  subst hjk
  rw [Option.some.inj (ha.symm.trans hb)]

/-- Every element is kept, up to its key. -/
theorem exists_kept {as : List α} {a : α} (ha : a ∈ as) : ∃ k b, (k, b) ∈ kept key as ∧ key b = key a := by
  have hlt : (as.map key).idxOf (key a) < as.length := by
    rw [← List.length_map (f := key)]
    exact List.idxOf_lt_length_of_mem (List.mem_map_of_mem ha)
  have hkey : key as[(as.map key).idxOf (key a)] = key a := by
    rw [← List.getElem_map key (h := by rwa [List.length_map])]
    exact List.getElem_idxOf _
  exact ⟨_, as[(as.map key).idxOf (key a)], mem_kept.mpr ⟨List.getElem?_eq_getElem hlt, by rw [hkey, position]⟩, hkey⟩

/-- Where elements of one key are equal, the order of a list does not decide what is kept of it. -/
theorem kept_perm {as bs : List α} (h : as.Perm bs) (hkey : ∀ a ∈ as, ∀ b ∈ as, key a = key b → a = b) :
    ((kept key as).map (·.2)).Perm ((kept key bs).map (·.2)) := by
  have hnodup : ∀ cs, ((kept key cs).map (·.2)).Nodup := by
    intro cs
    have hmap : ((kept key cs).map (key ·.2)).Nodup := nodup_kept cs
    rw [show (kept key cs).map (key ·.2) = ((kept key cs).map (·.2)).map key from (List.map_map ..).symm] at hmap
    exact hmap.of_map
  have hmem : ∀ cs : List α, (∀ a ∈ cs, ∀ b ∈ cs, key a = key b → a = b) → ∀ a, a ∈ (kept key cs).map (·.2) ↔ a ∈ cs := by
    intro cs hcs a
    rw [List.mem_map]
    constructor
    · intro ⟨⟨k, b⟩, hb, heq⟩
      exact heq ▸ List.mem_of_getElem? (mem_kept.mp hb).1
    · intro ha
      obtain ⟨k, b, hb, heq⟩ : ∃ k b, (k, b) ∈ kept key cs ∧ key b = key a := exists_kept ha
      exact ⟨(k, b), hb, hcs b (List.mem_of_getElem? (mem_kept.mp hb).1) a ha heq⟩
  rw [List.perm_ext_iff_of_nodup (hnodup as) (hnodup bs)]
  intro a
  rw [hmem as hkey, hmem bs fun a ha b hb => hkey a (h.mem_iff.mpr ha) b (h.mem_iff.mpr hb), h.mem_iff]

/-! ### Sorting -/

section Sorting

variable {lin : Type} [LinearOrder lin] (rank : α → lin)

/-- Sorted by a key; elements of one key stay in their order. -/
def sortBy (as : List α) : List α := as.insertionSort fun a b => rank a ≤ rank b

variable {rank}

theorem sortBy_perm (as : List α) : (sortBy rank as).Perm as := List.perm_insertionSort _ as

theorem sortBy_sorted (as : List α) : (sortBy rank as).Pairwise fun a b => rank a ≤ rank b := by
  have htotal : Std.Total fun a b : α => rank a ≤ rank b := ⟨fun a b => le_total (rank a) (rank b)⟩
  have htrans : IsTrans α fun a b => rank a ≤ rank b := ⟨fun _ _ _ => le_trans⟩
  exact List.pairwise_insertionSort _ as

/-- A list whose elements have different keys is sorted in one way. -/
theorem sortBy_eq_of_perm {as bs : List α} (h : as.Perm bs) (hinj : ∀ a ∈ as, ∀ b ∈ as, rank a = rank b → a = b) :
    sortBy rank as = sortBy rank bs := by
  refine List.Perm.eq_of_pairwise ?_ (sortBy_sorted as) (sortBy_sorted bs)
    ((sortBy_perm as).trans (h.trans (sortBy_perm bs).symm))
  intro a b ha hb hab hba
  rw [(sortBy_perm as).mem_iff] at ha
  rw [(sortBy_perm bs).mem_iff, ← h.mem_iff] at hb
  exact hinj a ha b hb (le_antisymm hab hba)

end Sorting

end Distinct
