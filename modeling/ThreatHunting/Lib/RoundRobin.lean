import Mathlib

/-!
# ThreatHunting.Lib.RoundRobin

Taking items from several groups in turn. `interleave` takes the first item of every group, then
the second of every group that has one, and so on; `fill` does the same with a limit on how many
items there are in the end. The order holds every item of every group once, keeps the order
within a group, and a beginning of it has as many items of one group as of another, give or
take one, unless a group has run out.
-/

namespace RoundRobin

variable {α κ : Type}

/-- The items of all groups, position by position. -/
def interleave (groups : List (List α)) : List α :=
  (List.range ((groups.map List.length).foldr max 0)).flatMap fun position =>
    groups.filterMap fun group => group[position]?

/-- One turn: an item of every group that has one left, until there are `limit` items. -/
def pass (limit : Nat) : List (List α) → List α → List (List α) × List α
  | [], sampled => ([], sampled)
  | [] :: groups, sampled =>
      let rest := pass limit groups sampled
      ([] :: rest.1, rest.2)
  | (row :: rows) :: groups, sampled =>
      if limit ≤ sampled.length + 1 then (rows :: groups, sampled ++ [row])
      else
        let rest := pass limit groups (sampled ++ [row])
        (rows :: rest.1, rest.2)

/-- Turns until there are `limit` items or nothing is left. -/
def fill (limit : Nat) : Nat → List (List α) → List α → List α
  | 0, _, sampled => sampled
  | turns + 1, groups, sampled =>
      if sampled.length < limit then
        let turn := pass limit groups sampled
        if turn.2.length = sampled.length then turn.2 else fill limit turns turn.1 turn.2
      else sampled

/-! ### Position by position -/

variable {groups : List (List α)}

/-- The length of the longest group. -/
def longest (groups : List (List α)) : Nat := (groups.map List.length).foldr max 0

/-- What is taken in the first turn. -/
def heads (groups : List (List α)) : List α := groups.filterMap List.head?

theorem longest_eq_zero : longest groups = 0 ↔ ∀ group ∈ groups, group = [] := by
  induction groups with
  | nil => simp [longest]
  | cons group groups ih => simpa [longest, Nat.max_eq_zero_iff] using fun _ => ih

theorem longest_tails (groups : List (List α)) : longest (groups.map List.tail) = longest groups - 1 := by
  induction groups with
  | nil => rfl
  | cons group groups ih =>
      simp only [longest, List.map_cons, List.foldr_cons, List.length_tail] at ih ⊢
      omega

theorem heads_eq_nil : heads groups = [] ↔ ∀ group ∈ groups, group = [] := by
  simp [heads, List.filterMap_eq_nil_iff]

theorem interleave_of_empty (h : ∀ group ∈ groups, group = []) : interleave groups = [] := by
  show (List.range (longest groups)).flatMap _ = []
  rw [longest_eq_zero.mpr h]
  rfl

/-- The order is a first turn, and the order of what is left. -/
theorem interleave_eq (groups : List (List α)) :
    interleave groups = heads groups ++ interleave (groups.map List.tail) := by
  cases hlongest : longest groups with
  | zero =>
      have hempty := longest_eq_zero.mp hlongest
      have htails : ∀ group ∈ groups.map List.tail, group = [] := by
        intro group hgroup
        obtain ⟨g, hg, rfl⟩ := List.mem_map.mp hgroup
        rw [hempty g hg]
        rfl
      rw [interleave_of_empty hempty, interleave_of_empty htails, heads_eq_nil.mpr hempty]
      rfl
  | succ n =>
      show (List.range (longest groups)).flatMap _ = _ ++ (List.range (longest (groups.map List.tail))).flatMap _
      rw [longest_tails, hlongest, List.range_succ_eq_map, List.flatMap_cons, List.flatMap_map, Nat.add_sub_cancel]
      congr 1
      · exact List.filterMap_congr fun group _ => List.head?_eq_getElem?.symm
      · refine List.flatMap_congr fun position _ => ?_
        rw [List.filterMap_map]
        exact List.filterMap_congr fun group _ => by simp [List.getElem?_tail]

/-- Induction on turns: what is to be shown of groups may be assumed of their tails. -/
theorem turnInduction {motive : List (List α) → Prop}
    (empty : ∀ groups : List (List α), (∀ group ∈ groups, group = []) → motive groups)
    (turn : ∀ groups : List (List α), motive (groups.map List.tail) → motive groups) (groups : List (List α)) :
    motive groups := by
  induction hn : longest groups generalizing groups with
  | zero => exact empty groups (longest_eq_zero.mp hn)
  | succ n ih => exact turn groups (ih _ (by rw [longest_tails, hn]; rfl))

/-- The order has every item of every group once. -/
theorem interleave_perm (groups : List (List α)) : (interleave groups).Perm groups.flatten := by
  induction groups using turnInduction with
  | empty groups h => rw [interleave_of_empty h, List.flatten_eq_nil_iff.mpr h]
  | turn groups ih =>
      rw [interleave_eq]
      refine (ih.append_left _).trans ?_
      clear ih
      induction groups with
      | nil => exact .refl _
      | cons group groups ih =>
          cases group with
          | nil => exact ih
          | cons a group =>
              have hswap : (heads groups ++ (group ++ (groups.map List.tail).flatten)).Perm
                  (group ++ (heads groups ++ (groups.map List.tail).flatten)) := by
                simpa only [List.append_assoc] using
                  (@List.perm_append_comm _ (heads groups) group).append_right (groups.map List.tail).flatten
              exact .cons a (hswap.trans (ih.append_left group))

/-! ### Turn by turn -/

variable {limit : Nat} {sampled : List α}

/-- A turn takes the heads as far as the limit allows. -/
theorem pass_eq (groups : List (List α)) (h : sampled.length < limit) :
    (pass limit groups sampled).2 = sampled ++ (heads groups).take (limit - sampled.length) ∧
      ((heads groups).length < limit - sampled.length → (pass limit groups sampled).1 = groups.map List.tail) := by
  induction groups generalizing sampled with
  | nil => simp [pass, heads]
  | cons group groups ih =>
      cases group with
      | nil =>
          obtain ⟨htaken, hleft⟩ := ih h
          exact ⟨htaken, fun hlt => congrArg ([] :: ·) (hleft hlt)⟩
      | cons row rows =>
          have hheads : heads ((row :: rows) :: groups) = row :: heads groups := rfl
          rw [hheads, pass]
          split
          next hfull =>
            have hone : limit - sampled.length = 1 := by omega
            rw [hone]
            exact ⟨rfl, fun hlt => by simp at hlt⟩
          next hmore =>
            obtain ⟨htaken, hleft⟩ := @ih (sampled ++ [row]) (by simp; omega)
            have hsucc : limit - sampled.length = limit - (sampled ++ [row]).length + 1 := by simp; omega
            rw [hsucc, List.take_succ_cons]
            refine ⟨by simpa using htaken, fun hlt => congrArg (rows :: ·) (hleft ?_)⟩
            simpa using hlt

theorem fill_of_full (turns : Nat) (groups : List (List α)) (h : limit ≤ sampled.length) :
    fill limit turns groups sampled = sampled := by
  cases turns with
  | zero => rfl
  | succ turns => exact if_neg (Nat.not_lt.mpr h)

/-- **Filling** up to a limit takes a beginning of the order, by induction on the turns. -/
theorem fill_eq (turns : Nat) (groups : List (List α)) (hturns : limit - sampled.length ≤ turns) :
    fill limit turns groups sampled = sampled ++ (interleave groups).take (limit - sampled.length) := by
  induction turns generalizing groups sampled with
  | zero =>
      rw [Nat.le_zero.mp hturns, List.take_zero, List.append_nil]
      rfl
  | succ turns ih =>
      rcases Nat.lt_or_ge sampled.length limit with hlt | hfull
      · obtain ⟨htaken, hleft⟩ := pass_eq groups hlt
        rw [fill, if_pos hlt, interleave_eq]
        dsimp only
        rcases Nat.lt_or_ge (heads groups).length (limit - sampled.length) with hshort | henough
        · rw [List.take_of_length_le hshort.le] at htaken
          split
          next hnone =>
            rw [htaken, List.length_append, Nat.add_eq_left, List.length_eq_zero_iff] at hnone
            have hempty := heads_eq_nil.mp hnone
            rw [htaken, ← interleave_eq, interleave_of_empty hempty, hnone]
            simp
          next hsome =>
            have hpos : (heads groups).length ≠ 0 := fun hzero => hsome (by rw [htaken]; simp [hzero])
            rw [htaken, hleft hshort, ih _ (by simp; omega), List.take_append, List.take_of_length_le hshort.le,
              List.length_append, List.append_assoc, Nat.sub_add_eq]
        · have hlength : (sampled ++ (heads groups).take (limit - sampled.length)).length = limit := by
            simp
            omega
          rw [List.take_append_of_le_length henough, htaken]
          split
          next => rfl
          next => exact fill_of_full _ _ hlength.ge
      · rw [fill_of_full _ _ hfull, Nat.sub_eq_zero_of_le hfull, List.take_zero, List.append_nil]

/-! ### Rounds

Before the ordinary turns there may be rounds that ask for some items only. A round goes
through what it asks for and no earlier round has taken.
-/

section Rounds

variable {ι : Type} [DecidableEq ι] (id : α → ι)

/-- What a round goes through. -/
def offer (groups : List (List α)) (sampled : List α) (wanted : α → Bool) : List (List α) :=
  groups.map (·.filter fun row => decide (id row ∉ sampled.map id) && wanted row)

/-- One round after the other, until there are `limit` items. -/
def rounds (limit : Nat) (groups : List (List α)) (asks : List (α → Bool)) : List α :=
  asks.foldl (fun sampled wanted => fill limit limit (offer id groups sampled wanted) sampled) []

/-- The order of all rounds. -/
def order (groups : List (List α)) (asks : List (α → Bool)) : List α :=
  asks.foldl (fun taken wanted => taken ++ interleave (offer id groups taken wanted)) []

variable {id} {taken : List α} {asks : List (α → Bool)}

/-- A round takes what is next in the order, as far as the limit allows. -/
theorem fill_take (groups : List (List α)) (limit : Nat) (taken : List α) (wanted : α → Bool) :
    fill limit limit (offer id groups (taken.take limit) wanted) (taken.take limit) =
      (taken ++ interleave (offer id groups taken wanted)).take limit := by
  rcases Nat.lt_or_ge taken.length limit with hlt | hfull
  · rw [List.take_of_length_le hlt.le, fill_eq _ _ (Nat.sub_le _ _), List.take_append, List.take_of_length_le hlt.le]
  · rw [fill_of_full _ _ (by simpa using hfull), List.take_append_of_le_length hfull]

/-- **Rounds.** With a limit, the rounds take a beginning of an order that does not depend on it. -/
theorem rounds_eq (limit : Nat) (groups : List (List α)) (asks : List (α → Bool)) :
    rounds id limit groups asks = (order id groups asks).take limit := by
  have hrun : ∀ taken : List α,
      asks.foldl (fun sampled wanted => fill limit limit (offer id groups sampled wanted) sampled) (taken.take limit) =
        (asks.foldl (fun taken wanted => taken ++ interleave (offer id groups taken wanted)) taken).take limit := by
    induction asks with
    | nil => exact fun _ => rfl
    | cons wanted asks ih =>
        intro taken
        rw [List.foldl_cons, fill_take]
        exact ih _
  have hnothing := hrun []
  rwa [List.take_nil] at hnothing

/-- What has been taken is part of the groups, and nothing twice. -/
structure Taken (id : α → ι) (groups : List (List α)) (taken : List α) : Prop where
  distinct : (taken.map id).Nodup
  subset : taken ⊆ groups.flatten

theorem mem_offer {a : α} {wanted : α → Bool} :
    a ∈ interleave (offer id groups taken wanted) ↔ a ∈ groups.flatten ∧ id a ∉ taken.map id ∧ wanted a := by
  rw [(interleave_perm _).mem_iff, offer, ← List.filter_flatten, List.mem_filter, Bool.and_eq_true, decide_eq_true_iff]

/-- One round keeps to that. -/
theorem Taken.round (h : Taken id groups taken) (hids : (groups.flatten.map id).Nodup) (wanted : α → Bool) :
    Taken id groups (taken ++ interleave (offer id groups taken wanted)) where
  distinct := by
    rw [List.map_append]
    refine h.distinct.append ?_ ?_
    · rw [((interleave_perm _).map id).nodup_iff, offer, ← List.filter_flatten]
      exact hids.sublist (List.filter_sublist.map id)
    · intro i htaken hnext
      obtain ⟨a, ha, rfl⟩ := List.mem_map.mp hnext
      exact (mem_offer.mp ha).2.1 htaken
  subset := List.append_subset.mpr ⟨h.subset, fun _ ha => (mem_offer.mp ha).1⟩

/-- All rounds keep to that, by induction on them. -/
theorem Taken.rounds (h : Taken id groups taken) (hids : (groups.flatten.map id).Nodup) (asks : List (α → Bool)) :
    Taken id groups
      (asks.foldl (fun taken wanted => taken ++ interleave (offer id groups taken wanted)) taken) := by
  induction asks generalizing taken with
  | nil => exact h
  | cons wanted asks ih => exact ih (h.round hids wanted)

/-- After a last round that asks for everything, everything has been taken once. -/
theorem order_perm (hids : (groups.flatten.map id).Nodup) (asks : List (α → Bool)) :
    (order id groups (asks ++ [fun _ => true])).Perm groups.flatten := by
  have hnothing : Taken id groups [] := ⟨List.nodup_nil, List.nil_subset _⟩
  have hall := hnothing.rounds hids (asks ++ [fun _ => true])
  refine (List.perm_ext_iff_of_nodup hall.distinct.of_map hids.of_map).mpr fun a => ⟨fun ha => hall.subset ha, ?_⟩
  intro ha
  rw [List.foldl_append, List.foldl_cons, List.foldl_nil, List.mem_append]
  refine or_iff_not_imp_left.mpr fun hnew => mem_offer.mpr ⟨ha, fun hid => hnew ?_, rfl⟩
  obtain ⟨b, hb, heq⟩ := List.mem_map.mp hid
  have hbefore := (hnothing.rounds hids asks).subset hb
  exact List.inj_on_of_nodup_map hids hbefore ha heq ▸ hb

/-- Without rounds that ask for some items only, the order goes through the groups. -/
theorem order_all (groups : List (List α)) : order id groups [fun _ => true] = interleave groups := by
  simp [order, offer]

end Rounds

/-! ### Fairness -/

section Fairness

variable {tag : α → κ} {tagged : List (κ × List α)}

/-- The groups are told apart by what their items are tagged with. -/
structure Tagged (tag : α → κ) (tagged : List (κ × List α)) : Prop where
  distinct : (tagged.map (·.1)).Nodup
  tags : ∀ g ∈ tagged, ∀ a ∈ g.2, tag a = g.1

/-- The groups without their tags. -/
def bare (tagged : List (κ × List α)) : List (List α) := tagged.map (·.2)

/-- What is left of tagged groups after a turn. -/
def tails (tagged : List (κ × List α)) : List (κ × List α) := tagged.map fun g => (g.1, g.2.tail)

theorem Tagged.tails (h : Tagged tag tagged) : Tagged tag (tails tagged) where
  distinct := by simpa [RoundRobin.tails, Function.comp_def] using h.distinct
  tags := by
    intro g hg a ha
    obtain ⟨g, hg', rfl⟩ := List.mem_map.mp hg
    exact h.tags g hg' a (List.mem_of_mem_tail ha)

theorem bare_tails (tagged : List (κ × List α)) : bare (tails tagged) = (bare tagged).map List.tail := by
  simp [bare, tails, Function.comp_def]

theorem heads_cons (group : List α) (groups : List (List α)) :
    heads (group :: groups) = group.head?.toList ++ heads groups := by
  cases group <;> rfl

variable [DecidableEq κ]

/-- A turn takes the first item of a group, if it has one. -/
theorem Tagged.filter_heads (h : Tagged tag tagged) {g : κ × List α} (hg : g ∈ tagged) :
    (heads (bare tagged)).filter (tag · = g.1) = g.2.head?.toList := by
  induction tagged with
  | nil => cases hg
  | cons t tagged ih =>
      obtain ⟨hnew, hdistinct⟩ := List.nodup_cons.mp h.distinct
      obtain ⟨htag, htags⟩ := List.forall_mem_cons.mp h.tags
      have hfirst : ∀ a ∈ t.2.head?.toList, tag a = t.1 := fun a ha =>
        htag a (List.mem_of_head? (by simpa using ha))
      have hrest : ∀ a ∈ heads (bare tagged), tag a ∈ tagged.map (·.1) := by
        intro a ha
        obtain ⟨group, hgroup, hhead⟩ := List.mem_filterMap.mp ha
        obtain ⟨g', hg', rfl⟩ := List.mem_map.mp hgroup
        exact List.mem_map.mpr ⟨g', hg', (htags g' hg' a (List.mem_of_head? hhead)).symm⟩
      show (heads (t.2 :: bare tagged)).filter _ = _
      rw [heads_cons, List.filter_append]
      rcases List.mem_cons.mp hg with rfl | hg
      · rw [List.filter_eq_self.mpr fun a ha => decide_eq_true (hfirst a ha), List.filter_eq_nil_iff.mpr, List.append_nil]
        intro a ha htaga
        have hmem := hrest a ha
        rw [of_decide_eq_true htaga] at hmem
        exact hnew hmem
      · rw [List.filter_eq_nil_iff.mpr, List.nil_append, ih ⟨hdistinct, htags⟩ hg]
        intro a ha htaga
        have heq : t.1 = g.1 := (hfirst a ha).symm.trans (of_decide_eq_true htaga)
        exact hnew (List.mem_map.mpr ⟨g, hg, heq.symm⟩)

/-- The order within a group is kept. -/
theorem Tagged.filter_interleave (h : Tagged tag tagged) {g : κ × List α} (hg : g ∈ tagged) :
    (interleave (bare tagged)).filter (tag · = g.1) = g.2 := by
  induction hn : longest (bare tagged) generalizing tagged g with
  | zero =>
      have hempty := longest_eq_zero.mp hn
      rw [interleave_of_empty hempty, hempty g.2 (List.mem_map_of_mem hg)]
      rfl
  | succ n ih =>
      have hrest := ih h.tails (List.mem_map_of_mem hg) (by rw [bare_tails, longest_tails, hn]; rfl)
      rw [interleave_eq, List.filter_append, h.filter_heads hg, ← bare_tails, hrest]
      cases g.2 <;> rfl

/-- A beginning of the order is some full turns and a part of the next one. -/
theorem Tagged.exists_turns (h : Tagged tag tagged) (n : Nat) :
    ∃ turns, ∀ g ∈ tagged, min turns g.2.length ≤ ((interleave (bare tagged)).take n).countP (tag · = g.1) ∧
      ((interleave (bare tagged)).take n).countP (tag · = g.1) ≤ min (turns + 1) g.2.length := by
  induction hlongest : longest (bare tagged) generalizing tagged n with
  | zero =>
      have hempty := longest_eq_zero.mp hlongest
      refine ⟨0, fun g hg => ?_⟩
      rw [interleave_of_empty hempty, hempty g.2 (List.mem_map_of_mem hg)]
      simp
  | succ m ih =>
      have hheads : ∀ g ∈ tagged, (heads (bare tagged)).countP (tag · = g.1) = min 1 g.2.length := by
        intro g hg
        rw [List.countP_eq_length_filter, h.filter_heads hg]
        cases g.2 <;> simp
      rcases Nat.lt_or_ge (heads (bare tagged)).length n with hmore | hfirst
      · obtain ⟨turns, hturns⟩ := ih h.tails (n - (heads (bare tagged)).length)
          (by rw [bare_tails, longest_tails, hlongest]; rfl)
        refine ⟨turns + 1, fun g hg => ?_⟩
        obtain ⟨hlower, hupper⟩ := hturns (g.1, g.2.tail) (List.mem_map_of_mem hg)
        rw [bare_tails] at hlower hupper
        rw [interleave_eq, List.take_append, List.take_of_length_le hmore.le, List.countP_append, hheads g hg]
        simp only [List.length_tail] at hlower hupper
        omega
      · refine ⟨0, fun g hg => ⟨by omega, ?_⟩⟩
        rw [interleave_eq, List.take_append_of_le_length hfirst, Nat.zero_add, ← hheads g hg]
        exact (List.take_sublist _ _).countP_le

/-- Of two tags, one has two items more in a sample only if the sample has all items of the other. -/
def Fair (tag : α → κ) (available sampled : List α) : Prop :=
  ∀ key key', sampled.countP (tag · = key') + 1 < sampled.countP (tag · = key) →
    sampled.countP (tag · = key') = available.countP (tag · = key')

theorem Fair.perm {available available' sampled : List α} (h : Fair tag available sampled)
    (hperm : available.Perm available') : Fair tag available' sampled := by
  intro key key' hlt
  rw [h key key' hlt, hperm.countP_eq]

theorem Tagged.countP_eq_zero (h : Tagged tag tagged) {key : κ} (hkey : key ∉ tagged.map (·.1)) :
    (interleave (bare tagged)).countP (tag · = key) = 0 := by
  rw [List.countP_eq_zero]
  intro a ha htag
  obtain ⟨group, hgroup, ha⟩ := List.mem_flatten.mp ((interleave_perm _).subset ha)
  obtain ⟨g, hg, rfl⟩ := List.mem_map.mp hgroup
  exact hkey (List.mem_map.mpr ⟨g, hg, (h.tags g hg a ha).symm.trans (of_decide_eq_true htag)⟩)

/-- **Fairness.** A beginning of the order is a fair sample of it. -/
theorem Tagged.fair (h : Tagged tag tagged) (n : Nat) :
    Fair tag (interleave (bare tagged)) ((interleave (bare tagged)).take n) := by
  intro key key' hlt
  have hle := fun k : κ => @List.Sublist.countP_le _ (tag · = k) _ _ (List.take_sublist n (interleave (bare tagged)))
  by_cases hkey' : key' ∈ tagged.map (·.1)
  · have hkey : key ∈ tagged.map (·.1) := by
      refine Decidable.by_contra fun hnew => ?_
      have := h.countP_eq_zero hnew
      have := hle key
      omega
    obtain ⟨g, hg, rfl⟩ := List.mem_map.mp hkey
    obtain ⟨g', hg', rfl⟩ := List.mem_map.mp hkey'
    obtain ⟨turns, hturns⟩ := h.exists_turns n
    have hmore := (hturns g hg).2
    have hfewer := hturns g' hg'
    have htotal := @List.countP_eq_length_filter _ (tag · = g'.1) (interleave (bare tagged))
    rw [h.filter_interleave hg'] at htotal
    omega
  · have hzero := h.countP_eq_zero hkey'
    rw [hzero]
    exact Nat.le_zero.mp (hzero ▸ hle key')

end Fairness

/-! ### Groups by tag -/

section Tags

variable {tag : α → κ} {rows : List α}

theorem nodup_eraseDups [BEq α] [LawfulBEq α] (as : List α) : as.eraseDups.Nodup := by
  induction hn : as.length using Nat.strongRecOn generalizing as with
  | ind n ih =>
      cases as with
      | nil => exact List.nodup_nil
      | cons a as =>
          rw [List.eraseDups_cons, List.nodup_cons, List.mem_eraseDups]
          exact ⟨by simp, ih _ (by simpa [← hn, Nat.lt_succ_iff] using List.length_filter_le _ as) _ rfl⟩

variable [DecidableEq κ]

/-- Divided by tag, items are still the same items. -/
theorem flatMap_filter_perm (tag : α → κ) :
    ∀ {keys : List κ} {rows : List α}, keys.Nodup → (∀ row ∈ rows, tag row ∈ keys) →
      (keys.flatMap fun key => rows.filter (tag · = key)).Perm rows
  | [], rows, _, hmem => by
      rw [List.eq_nil_iff_forall_not_mem.mpr fun row hrow => nomatch hmem row hrow]
      rfl
  | key :: keys, rows, hdistinct, hmem => by
      obtain ⟨hnew, hdistinct⟩ := List.nodup_cons.mp hdistinct
      have hrest : (keys.flatMap fun k => rows.filter (tag · = k)) =
          keys.flatMap fun k => (rows.filter (tag · ≠ key)).filter (tag · = k) := by
        refine List.flatMap_congr fun k hk => ?_
        rw [List.filter_filter]
        refine List.filter_congr fun row _ => ?_
        by_cases heq : tag row = k
        · have hne : k ≠ key := fun h => hnew (h ▸ hk)
          simp [heq, hne]
        · simp [heq]
      have hleft : ∀ row ∈ rows.filter (tag · ≠ key), tag row ∈ keys := by
        intro row hrow
        obtain ⟨hrow, hne⟩ := List.mem_filter.mp hrow
        exact (List.mem_cons.mp (hmem row hrow)).resolve_left (of_decide_eq_true hne)
      rw [List.flatMap_cons, hrest]
      refine ((flatMap_filter_perm tag hdistinct hleft).append_left _).trans ?_
      simpa using List.filter_append_perm (fun row => decide (tag row = key)) rows

/-- The items by tag, the tags in the order they come up in. -/
def byTag (tag : α → κ) (rows : List α) : List (κ × List α) :=
  (rows.map tag).eraseDups.map fun key => (key, rows.filter (tag · = key))

theorem byTag_tagged (tag : α → κ) (rows : List α) : Tagged tag (byTag tag rows) where
  distinct := by simpa [byTag, Function.comp_def] using nodup_eraseDups _
  tags := by
    intro g hg a ha
    obtain ⟨key, -, rfl⟩ := List.mem_map.mp hg
    exact of_decide_eq_true (List.mem_filter.mp ha).2

theorem byTag_perm (tag : α → κ) (rows : List α) : (bare (byTag tag rows)).flatten.Perm rows := by
  have hmem : ∀ row ∈ rows, tag row ∈ (rows.map tag).eraseDups := fun row hrow =>
    List.mem_eraseDups.mpr (List.mem_map_of_mem hrow)
  simpa [bare, byTag, Function.comp_def, List.flatMap] using flatMap_filter_perm tag (nodup_eraseDups _) hmem

end Tags

end RoundRobin
