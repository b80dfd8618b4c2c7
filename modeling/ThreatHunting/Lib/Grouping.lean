import ThreatHunting.Lib.Fallible

/-!
# Groups and pages

Rows are put into slots one after the other: a row whose key is already there is merged into
its slot, and every other row opens a slot at the end. A row without a key always opens one. What
the rows mention, the slots mention, each slot mentions rows of its own key only, and
grouping the slots again changes nothing.

The second part reads a list page by page, at the offsets the pages themselves return.
-/

namespace Grouping

open Fallible

/-- A place of the output, with the key it is known under. -/
structure Slot (κ α : Type) where
  key : Option κ
  item : α
  deriving DecidableEq

section Definitions

variable {α κ ε : Type} [DecidableEq κ] (merge : α → α → Except ε α) (key : α → Except ε (Option κ))

/-- Put one row with its key into the slots. -/
def place (k : Option κ) (a : α) : List (Slot κ α) → Except ε (List (Slot κ α))
  | [] => .ok [⟨k, a⟩]
  | s :: slots =>
      if k ≠ none ∧ s.key = k then (merge s.item a).map fun b => ⟨s.key, b⟩ :: slots
      else (place k a slots).map (s :: ·)

/-- Put rows into slots, in order. -/
def groupInto (slots : List (Slot κ α)) : List α → Except ε (List (Slot κ α))
  | [] => .ok slots
  | a :: rows => do
      let k ← key a
      groupInto (← place merge k a slots) rows

/-- The slots of a list of rows. -/
def group (rows : List α) : Except ε (List (Slot κ α)) := groupInto merge key [] rows

end Definitions

variable {α κ ε ι : Type} {merge : α → α → Except ε α} {key : α → Except ε (Option κ)}
  {mentions : α → List ι} {k : Option κ} {a : α} {slots slots' : List (Slot κ α)} {rows : List α}

section Place

variable [DecidableEq κ]

/-- A row opens a slot at the end, or is merged into the slot of its key. -/
theorem place_cases (h : place merge k a slots = .ok slots') :
    ((∀ s ∈ slots, k = none ∨ s.key ≠ k) ∧ slots' = slots ++ [⟨k, a⟩]) ∨
      ∃ before s after b, slots = before ++ s :: after ∧ k ≠ none ∧ s.key = k ∧
        merge s.item a = .ok b ∧ slots' = before ++ ⟨k, b⟩ :: after := by
  induction slots generalizing slots' with
  | nil =>
      left
      rw [place, Except.ok.injEq] at h
      exact ⟨by simp, h.symm⟩
  | cons s slots ih =>
      rw [place] at h
      by_cases hs : k ≠ none ∧ s.key = k
      · rw [if_pos hs] at h
        obtain ⟨b, hb, rfl⟩ := map_eq_ok.mp h
        exact .inr ⟨[], s, slots, b, rfl, hs.1, hs.2, hb, by rw [hs.2]; rfl⟩
      · rw [if_neg hs] at h
        obtain ⟨rest, hrest, rfl⟩ := map_eq_ok.mp h
        rcases ih hrest with ⟨hnone, rfl⟩ | ⟨before, t, after, b, rfl, hk, ht, hb, rfl⟩
        · left
          refine ⟨List.forall_mem_cons.mpr ⟨?_, hnone⟩, rfl⟩
          by_cases hk : k = none
          · exact .inl hk
          · exact .inr fun heq => hs ⟨hk, heq⟩
        · exact .inr ⟨s :: before, t, after, b, rfl, hk, ht, hb, rfl⟩

/-- A row whose key no slot has opens a slot. -/
theorem place_of_new (h : ∀ s ∈ slots, k = none ∨ s.key ≠ k) :
    place merge k a slots = .ok (slots ++ [⟨k, a⟩]) := by
  induction slots with
  | nil => rfl
  | cons s slots ih =>
      rw [List.forall_mem_cons] at h
      have hs : ¬(k ≠ none ∧ s.key = k) := fun hs => h.1.elim hs.1 fun hne => hne hs.2
      rw [place, if_neg hs, ih h.2]
      rfl

end Place

/-- What is kept while rows are put into slots. -/
structure Grouped (key : α → Except ε (Option κ)) (mentions : α → List ι) (rows : List α)
    (slots : List (Slot κ α)) : Prop where
  /-- A slot is known under the key of what it holds. -/
  keyed : ∀ s ∈ slots, key s.item = .ok s.key
  /-- No two slots are known under one key. -/
  distinct : (slots.filterMap Slot.key).Nodup
  /-- The slots mention what the rows mention, equally often. -/
  mentioned : (slots.flatMap fun s => mentions s.item).Perm (rows.flatMap mentions)
  /-- What a slot mentions comes from a row of its key. -/
  origin : ∀ s ∈ slots, ∀ i ∈ mentions s.item, ∃ a ∈ rows, i ∈ mentions a ∧ key a = .ok s.key
  /-- A slot without a key holds a row as it was. -/
  alone : ∀ s ∈ slots, s.key = none → s.item ∈ rows

/-- Merging `a` into a row keeps the row's key and adds what `a` mentions. -/
def Merges (merge : α → α → Except ε α) (key : α → Except ε (Option κ)) (mentions : α → List ι)
    (a : α) : Prop :=
  ∀ {b c}, merge b a = .ok c → key c = key b ∧ mentions c = mentions b ++ mentions a

namespace Grouped

theorem empty : Grouped key mentions [] [] where
  keyed := by simp
  distinct := List.nodup_nil
  mentioned := .refl _
  origin := by simp
  alone := by simp

/-- A row that opens a slot. -/
theorem opened (h : Grouped key mentions rows slots) (hk : key a = .ok k)
    (hnew : ∀ s ∈ slots, k = none ∨ s.key ≠ k) :
    Grouped key mentions (rows ++ [a]) (slots ++ [⟨k, a⟩]) where
  keyed s hs := by
    rcases List.mem_append.mp hs with hs | hs
    · exact h.keyed s hs
    · rw [List.mem_singleton.mp hs]
      exact hk
  distinct := by
    rw [List.filterMap_append]
    cases k with
    | none => simpa using h.distinct
    | some k =>
        refine h.distinct.append (by simp) ?_
        rw [List.disjoint_left]
        intro k' hk' hmem
        obtain ⟨s, hs, hkey⟩ := List.mem_filterMap.mp hk'
        obtain rfl : k' = k := by simpa using hmem
        exact (hnew s hs).elim nofun fun hne => hne hkey
  mentioned := by
    rw [List.flatMap_append, List.flatMap_append]
    exact h.mentioned.append (by simp)
  origin s hs i hi := by
    rcases List.mem_append.mp hs with hs | hs
    · obtain ⟨b, hb, himem, hkey⟩ := h.origin s hs i hi
      exact ⟨b, List.mem_append_left _ hb, himem, hkey⟩
    · rw [List.mem_singleton.mp hs] at hi ⊢
      exact ⟨a, List.mem_append_right _ (List.mem_singleton_self a), hi, hk⟩
  alone s hs hnone := by
    rcases List.mem_append.mp hs with hs | hs
    · exact List.mem_append_left _ (h.alone s hs hnone)
    · rw [List.mem_singleton.mp hs]
      exact List.mem_append_right _ (List.mem_singleton_self a)

/-- A row that is merged into the slot of its key. -/
theorem merged {before after : List (Slot κ α)} {s : Slot κ α} {b : α}
    (h : Grouped key mentions rows (before ++ s :: after)) (hk : key a = .ok k) (hne : k ≠ none)
    (hs : s.key = k) (hb : key b = key s.item ∧ mentions b = mentions s.item ++ mentions a) :
    Grouped key mentions (rows ++ [a]) (before ++ ⟨k, b⟩ :: after) := by
  have hmem : s ∈ before ++ s :: after := List.mem_append_right _ List.mem_cons_self
  have hold : ∀ t ∈ before ++ ⟨k, b⟩ :: after, t = ⟨k, b⟩ ∨ t ∈ before ++ s :: after := by
    intro t ht
    rw [List.mem_append, List.mem_cons] at ht ⊢
    tauto
  constructor
  case keyed =>
    intro t ht
    rcases hold t ht with rfl | ht
    · exact (hb.1.trans (h.keyed s hmem)).trans (congrArg _ hs)
    · exact h.keyed t ht
  case distinct =>
    have hkeys : (before ++ ⟨k, b⟩ :: after).filterMap Slot.key =
        (before ++ s :: after).filterMap Slot.key := by
      rw [List.filterMap_append, List.filterMap_append, List.filterMap_cons, List.filterMap_cons, hs]
    rw [hkeys]
    exact h.distinct
  case mentioned =>
    have hbefore := h.mentioned
    rw [List.flatMap_append, List.flatMap_cons] at hbefore ⊢
    rw [hb.2, List.flatMap_append, List.flatMap_singleton]
    have hswap : (mentions a ++ after.flatMap fun t => mentions t.item).Perm
        ((after.flatMap fun t => mentions t.item) ++ mentions a) := List.perm_append_comm
    have hlast := (hswap.append_left (mentions s.item)).append_left (before.flatMap fun t => mentions t.item)
    simp only [List.append_assoc] at hlast hbefore ⊢
    refine hlast.trans ?_
    simpa only [List.append_assoc] using hbefore.append_right (mentions a)
  case origin =>
    have hlater : ∀ t ∈ before ++ s :: after, ∀ i ∈ mentions t.item,
        ∃ b ∈ rows ++ [a], i ∈ mentions b ∧ key b = .ok t.key := by
      intro t ht i hi
      obtain ⟨b, hb, himem, hkey⟩ := h.origin t ht i hi
      exact ⟨b, List.mem_append_left _ hb, himem, hkey⟩
    intro t ht i hi
    rcases hold t ht with rfl | ht
    · rw [hb.2] at hi
      rcases List.mem_append.mp hi with hi | hi
      · obtain ⟨c, hc, himem, hkey⟩ := hlater s hmem i hi
        exact ⟨c, hc, himem, hs ▸ hkey⟩
      · exact ⟨a, List.mem_append_right _ (List.mem_singleton_self a), hi, hk⟩
    · exact hlater t ht i hi
  case alone =>
    intro t ht hnone
    rcases hold t ht with rfl | ht
    · exact absurd hnone hne
    · exact List.mem_append_left _ (h.alone t ht hnone)

variable [DecidableEq κ]

theorem step (h : Grouped key mentions rows slots) (hmerge : Merges merge key mentions a)
    (hk : key a = .ok k) (hplace : place merge k a slots = .ok slots') :
    Grouped key mentions (rows ++ [a]) slots' := by
  rcases place_cases hplace with ⟨hnew, rfl⟩ | ⟨before, s, after, b, rfl, hne, hs, hb, rfl⟩
  · exact h.opened hk hnew
  · exact h.merged hk hne hs (hmerge hb)

/-- The invariant holds of the slots of any list of rows. -/
theorem groupInto {more : List α} (h : Grouped key mentions rows slots)
    (hmerge : ∀ a ∈ more, Merges merge key mentions a)
    (hgroup : groupInto merge key slots more = .ok slots') :
    Grouped key mentions (rows ++ more) slots' := by
  induction more generalizing rows slots with
  | nil =>
      obtain rfl := Except.ok.inj hgroup
      rwa [List.append_nil]
  | cons a more ih =>
      rw [List.forall_mem_cons] at hmerge
      rw [Grouping.groupInto] at hgroup
      obtain ⟨k, hk, hgroup⟩ := bind_eq_ok.mp hgroup
      obtain ⟨slots₁, hplace, hgroup⟩ := bind_eq_ok.mp hgroup
      have := ih (h.step hmerge.1 hk hplace) hmerge.2 hgroup
      rwa [List.append_assoc] at this

theorem of_group (hmerge : ∀ a ∈ rows, Merges merge key mentions a)
    (hgroup : group merge key rows = .ok slots) : Grouped key mentions rows slots := by
  have := empty.groupInto hmerge hgroup
  rwa [List.nil_append] at this

end Grouped

/-- Rows with new and different keys open a slot each. -/
theorem groupInto_slots [DecidableEq κ] {more : List (Slot κ α)} (hkeyed : ∀ s ∈ more, key s.item = .ok s.key)
    (hdistinct : ((slots ++ more).filterMap Slot.key).Nodup) :
    groupInto merge key slots (more.map Slot.item) = .ok (slots ++ more) := by
  induction more generalizing slots with
  | nil => rw [List.append_nil]; rfl
  | cons s more ih =>
      rw [List.forall_mem_cons] at hkeyed
      have hnew : ∀ t ∈ slots, s.key = none ∨ t.key ≠ s.key := by
        intro t ht
        cases hs : s.key with
        | none => exact .inl rfl
        | some k =>
            right
            intro heq
            rw [List.filterMap_append, List.filterMap_cons, hs] at hdistinct
            exact List.disjoint_of_nodup_append hdistinct
              (List.mem_filterMap.mpr ⟨t, ht, heq⟩) List.mem_cons_self
      rw [List.map_cons, groupInto, hkeyed.1, ok_bind, place_of_new hnew, ok_bind,
        ih hkeyed.2 (by simpa using hdistinct)]
      simp

/-- Grouping what the slots hold changes nothing. -/
theorem Grouped.regroup [DecidableEq κ] (h : Grouped key mentions rows slots) :
    group merge key (slots.map Slot.item) = .ok slots :=
  groupInto_slots h.keyed (by simpa using h.distinct)

/-- Two slots that are known under one key are one. -/
theorem eq_of_key (h : (slots.filterMap Slot.key).Nodup) {s t : Slot κ α} {k : κ} (hs : s ∈ slots)
    (ht : t ∈ slots) (hsk : s.key = some k) (htk : t.key = some k) : s = t := by
  induction slots with
  | nil => cases hs
  | cons u slots ih =>
      have hlater : ∀ {v : Slot κ α}, v ∈ slots → v.key = some k → k ∈ slots.filterMap Slot.key :=
        fun hv hvk => List.mem_filterMap.mpr ⟨_, hv, hvk⟩
      rw [List.filterMap_cons] at h
      rcases List.mem_cons.mp hs with rfl | hs'
      · rcases List.mem_cons.mp ht with rfl | ht'
        · rfl
        · rw [hsk] at h
          exact absurd (hlater ht' htk) (List.nodup_cons.mp h).1
      · rcases List.mem_cons.mp ht with rfl | ht'
        · rw [htk] at h
          exact absurd (hlater hs' hsk) (List.nodup_cons.mp h).1
        · refine ih ?_ hs' ht'
          cases hu : u.key with
          | none => rwa [hu] at h
          | some k' =>
              rw [hu] at h
              exact (List.nodup_cons.mp h).2

/-! ### Rows that mention themselves only -/

section Single

variable {f : α → ι}

theorem flatMap_of_single (hsingle : ∀ a ∈ rows, mentions a = [f a]) : rows.flatMap mentions = rows.map f := by
  induction rows with
  | nil => rfl
  | cons a rows ih =>
      rw [List.forall_mem_cons] at hsingle
      rw [List.flatMap_cons, hsingle.1, ih hsingle.2]
      rfl

/-- Every row is mentioned once. -/
theorem Grouped.count_mentions [DecidableEq ι] (h : Grouped key mentions rows slots)
    (hsingle : ∀ a ∈ rows, mentions a = [f a]) (hnodup : (rows.map f).Nodup) (ha : a ∈ rows) :
    (slots.flatMap fun s => mentions s.item).count (f a) = 1 := by
  rw [h.mentioned.count_eq, flatMap_of_single hsingle]
  exact List.count_eq_one_of_mem hnodup (List.mem_map_of_mem ha)

/-- A slot that mentions a row has its key, and holds the row itself if that is none. -/
theorem Grouped.key_of_mentioned (h : Grouped key mentions rows slots)
    (hsingle : ∀ a ∈ rows, mentions a = [f a]) (hnodup : (rows.map f).Nodup) (ha : a ∈ rows)
    {s : Slot κ α} (hs : s ∈ slots) (hmem : f a ∈ mentions s.item) :
    key a = .ok s.key ∧ (s.key = none → s.item = a) := by
  obtain ⟨b, hb, hmemb, hkey⟩ := h.origin s hs _ hmem
  rw [hsingle b hb, List.mem_singleton] at hmemb
  obtain rfl : a = b := List.inj_on_of_nodup_map hnodup ha hb hmemb
  refine ⟨hkey, fun hnone => ?_⟩
  have hrow := h.alone s hs hnone
  rw [hsingle _ hrow, List.mem_singleton] at hmem
  exact (List.inj_on_of_nodup_map hnodup ha hrow hmem).symm

theorem Grouped.exists_slot (h : Grouped key mentions rows slots) (hsingle : ∀ a ∈ rows, mentions a = [f a])
    (ha : a ∈ rows) : ∃ s ∈ slots, f a ∈ mentions s.item := by
  have hmem : f a ∈ rows.flatMap mentions := by
    rw [flatMap_of_single hsingle]
    exact List.mem_map_of_mem ha
  exact List.mem_flatMap.mp (h.mentioned.mem_iff.mpr hmem)

theorem Grouped.exists_key (h : Grouped key mentions rows slots) (hsingle : ∀ a ∈ rows, mentions a = [f a])
    (hnodup : (rows.map f).Nodup) (ha : a ∈ rows) : ∃ k, key a = .ok k := by
  obtain ⟨s, hs, hmem⟩ := h.exists_slot hsingle ha
  exact ⟨s.key, (h.key_of_mentioned hsingle hnodup ha hs hmem).1⟩

/-- **Sharing.** Two rows are mentioned in one slot exactly if they have the same key. -/
theorem Grouped.share_iff (h : Grouped key mentions rows slots)
    (hsingle : ∀ a ∈ rows, mentions a = [f a]) (hnodup : (rows.map f).Nodup) {b : α} (ha : a ∈ rows)
    (hb : b ∈ rows) (hne : a ≠ b) :
    (∃ s ∈ slots, f a ∈ mentions s.item ∧ f b ∈ mentions s.item) ↔
      ∃ k, key a = .ok (some k) ∧ key b = .ok (some k) := by
  constructor
  · rintro ⟨s, hs, hmema, hmemb⟩
    obtain ⟨hkeya, halonea⟩ := h.key_of_mentioned hsingle hnodup ha hs hmema
    obtain ⟨hkeyb, haloneb⟩ := h.key_of_mentioned hsingle hnodup hb hs hmemb
    cases hkey : s.key with
    | none => exact absurd ((halonea hkey).symm.trans (haloneb hkey)) hne
    | some k =>
        rw [hkey] at hkeya hkeyb
        exact ⟨k, hkeya, hkeyb⟩
  · rintro ⟨k, hkeya, hkeyb⟩
    obtain ⟨s, hs, hmema⟩ := h.exists_slot hsingle ha
    obtain ⟨t, ht, hmemb⟩ := h.exists_slot hsingle hb
    have hsk : s.key = some k :=
      Except.ok.inj ((h.key_of_mentioned hsingle hnodup ha hs hmema).1.symm.trans hkeya)
    have htk : t.key = some k :=
      Except.ok.inj ((h.key_of_mentioned hsingle hnodup hb ht hmemb).1.symm.trans hkeyb)
    obtain rfl : s = t := eq_of_key h.distinct hs ht hsk htk
    exact ⟨s, hs, hmema, hmemb⟩

end Single

/-! ### Pages -/

/-- One page of a list, and the offset of the next one if there is one. -/
structure Page (α : Type) where
  items : List α
  next : Option Nat

/-- The page of `items` at an offset. -/
def pageAt (items : List α) (offset limit : Nat) : Page α :=
  let page := (items.drop offset).take limit
  ⟨page, if offset + page.length < items.length then some (offset + page.length) else none⟩

/-- The pages from an offset on, each asked for at the offset the one before it returned,
until there is no further one. -/
inductive Follows (ask : Nat → Option (Page α)) : Nat → List (Page α) → Prop
  | last {offset page} : ask offset = some page → page.next = none → Follows ask offset [page]
  | next {offset page next pages} : ask offset = some page → page.next = some next →
      Follows ask next pages → Follows ask offset (page :: pages)

variable {ask : Nat → Option (Page α)} {items : List α} {offset : Nat} {pages : List (Page α)}

/-- A page and what comes after it are what comes from its offset on. -/
theorem pageAt_append (items : List α) (offset limit : Nat) :
    (pageAt items offset limit).items ++
      items.drop (offset + (pageAt items offset limit).items.length) = items.drop offset := by
  rw [← List.drop_drop]
  exact List.prefix_iff_eq_append.mp (List.take_prefix limit _)

/-- Following the offsets comes to an end, whatever the limits. -/
theorem exists_follows {limit : Nat → Nat} (hlimit : ∀ offset, 0 < limit offset)
    (hask : ∀ offset, ask offset = some (pageAt items offset (limit offset))) (offset : Nat) :
    ∃ pages, Follows ask offset pages := by
  induction hn : items.length - offset using Nat.strong_induction_on generalizing offset with
  | _ n ih =>
      by_cases hmore : offset + ((items.drop offset).take (limit offset)).length < items.length
      · have hpos : 0 < ((items.drop offset).take (limit offset)).length := by
          have := hlimit offset
          rw [List.length_take, List.length_drop]
          omega
        have hless : items.length - (offset + ((items.drop offset).take (limit offset)).length) < n := by
          omega
        obtain ⟨pages, hpages⟩ := ih _ hless _ rfl
        exact ⟨_, .next (hask offset) (if_pos hmore) hpages⟩
      · exact ⟨_, .last (hask offset) (if_neg hmore)⟩

/-- The pages together are the list from the first offset on. -/
theorem Follows.flatMap_items {limit : Nat → Nat}
    (hask : ∀ offset, ask offset = some (pageAt items offset (limit offset)))
    (h : Follows ask offset pages) : pages.flatMap Page.items = items.drop offset := by
  induction h with
  | @last offset page hpage hnone =>
      obtain rfl := Option.some.inj ((hask offset).symm.trans hpage)
      have hend : items.length ≤ offset + (pageAt items offset (limit offset)).items.length := by
        by_contra hmore
        have hsome : (pageAt items offset (limit offset)).next = some _ := if_pos (not_le.mp hmore)
        rw [hnone] at hsome
        cases hsome
      have := pageAt_append items offset (limit offset)
      rw [List.drop_of_length_le hend, List.append_nil] at this
      rw [List.flatMap_singleton, this]
  | @next offset page next pages hpage hnext _ ih =>
      obtain rfl := Option.some.inj ((hask offset).symm.trans hpage)
      have hoffset : next = offset + (pageAt items offset (limit offset)).items.length := by
        rw [pageAt] at hnext ⊢
        split at hnext
        · exact (Option.some.inj hnext).symm
        · cases hnext
      rw [List.flatMap_cons, ih, hoffset, pageAt_append]

end Grouping
