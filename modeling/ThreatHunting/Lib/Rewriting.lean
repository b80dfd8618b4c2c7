import ThreatHunting.Lib.Scan

/-!
# Rewriting a list

`re.finditer` and `re.sub`. A pattern is tried at one place after the other, and where it matches, the
search goes on behind the match. `pieces` is the one walk both read: the elements outside of every match, and
the matches. The second part squeezes every run of some elements into one of them, as `re.sub` of such a run does,
and says which parts of a list are still there afterwards.
-/

namespace Rewriting

open Scan

variable {α β : Type}

/-- A pattern: what it finds at a place, given the element before it, and what follows the match. -/
abbrev Pattern (α β : Type) := Option α → List α → Option (β × List α)

/-- The walk over at most `n` places. -/
def walk (pattern : Pattern α β) : Nat → Option α → List α → List (α ⊕ β)
  | 0, _, _ => []
  | _ + 1, _, [] => []
  | n + 1, prev, c :: cs =>
      match pattern prev (c :: cs) with
      | none => .inl c :: walk pattern n (some c) cs
      | some (b, rest) =>
          .inr b :: walk pattern n ((c :: cs).take ((c :: cs).length - rest.length)).getLast? rest

/-- The matches of a pattern, and the elements outside of them. -/
def pieces (pattern : Pattern α β) (cs : List α) : List (α ⊕ β) := walk pattern cs.length none cs

/-- `re.finditer`. -/
def finditer (pattern : Pattern α β) (cs : List α) : List β := (pieces pattern cs).filterMap Sum.getRight?

/-- `re.sub`. -/
def sub (pattern : Pattern α β) (replacement cs : List α) : List α :=
  (pieces pattern cs).flatMap (Sum.elim (fun c => [c]) fun _ => replacement)

/-- A match is not empty. -/
def Consumes (pattern : Pattern α β) : Prop :=
  ∀ {prev cs b rest}, pattern prev cs = some (b, rest) → rest.length < cs.length

/-- A pattern that does not look behind. -/
def Forward (pattern : Pattern α β) : Prop := ∀ prev prev' cs, pattern prev cs = pattern prev' cs

section Walk

variable {pattern : Pattern α β} {replacement : List α}

theorem walk_nil (pattern : Pattern α β) (n : Nat) (prev : Option α) : walk pattern n prev [] = [] := by
  cases n <;> rfl

/-- As many places as there are elements suffice. -/
theorem walk_eq_of_le (hp : Consumes pattern) :
    ∀ {n : Nat} {prev : Option α} {cs : List α}, cs.length ≤ n →
      walk pattern n prev cs = walk pattern cs.length prev cs := by
  intro n
  induction n using Nat.strongRecOn with
  | ind n ih =>
      intro prev cs hn
      cases cs with
      | nil => rw [walk_nil, walk_nil]
      | cons c cs =>
          rw [List.length_cons] at hn
          obtain ⟨n, rfl⟩ := Nat.exists_eq_add_one_of_ne_zero (n := n) (by omega)
          rw [List.length_cons, walk, walk]
          cases hm : pattern prev (c :: cs) with
          | none => simp only [ih n (Nat.lt_succ_self n) (Nat.le_of_succ_le_succ hn)]
          | some m =>
              obtain ⟨b, rest⟩ := m
              have hrest : rest.length ≤ cs.length := Nat.le_of_lt_succ (hp hm)
              simp only
              rw [ih n (Nat.lt_succ_self n) (by omega)]
              rcases Nat.lt_or_eq_of_le (Nat.le_of_succ_le_succ hn) with hlt | heq
              · rw [ih cs.length (by omega) hrest]
              · rw [heq, ih n (Nat.lt_succ_self n) (by omega)]

theorem walk_forward (hf : Forward pattern) :
    ∀ (n : Nat) (prev prev' : Option α) (cs : List α), walk pattern n prev cs = walk pattern n prev' cs
  | 0, _, _, _ => rfl
  | _ + 1, _, _, [] => rfl
  | n + 1, prev, prev', c :: cs => by rw [walk, walk, hf prev prev']

@[simp] theorem sub_nil (pattern : Pattern α β) (replacement : List α) : sub pattern replacement [] = [] := rfl

/-- Where a pattern does not match, the element stays. -/
theorem sub_cons_of_none (hf : Forward pattern) {c : α} {cs : List α} (h : pattern none (c :: cs) = none) :
    sub pattern replacement (c :: cs) = c :: sub pattern replacement cs := by
  rw [sub, pieces, List.length_cons, walk, h]
  simp only
  rw [walk_forward hf _ _ none, List.flatMap_cons]
  rfl

/-- Where it matches, the replacement takes the place of the match. -/
theorem sub_cons_of_some (hf : Forward pattern) (hp : Consumes pattern) {c : α} {cs rest : List α} {b : β}
    (h : pattern none (c :: cs) = some (b, rest)) :
    sub pattern replacement (c :: cs) = replacement ++ sub pattern replacement rest := by
  rw [sub, pieces, List.length_cons, walk, h]
  simp only
  rw [walk_forward hf _ _ none, walk_eq_of_le hp (Nat.le_of_lt_succ (hp h)), List.flatMap_cons]
  rfl

end Walk

/-! ### Runs -/

section Runs

variable (blank : α → Bool)

/-- `[…]+`: a run of blanks, as long as it is. -/
def run : Pattern α Unit
  | _, c :: cs => if blank c then some ((), cs.dropWhile blank) else none
  | _, [] => none

/-- Every run of blanks is squeezed into one `one`. -/
def squeeze (one : α) (cs : List α) : List α := sub (run blank) [one] cs

/-- Every blank is `one`, and no two of them are neighbours. -/
structure Squeezed (one : α) (cs : List α) : Prop where
  only : ∀ c ∈ cs, blank c = true → c = one
  apart : cs.IsChain fun c d => ¬(blank c = true ∧ blank d = true)

variable {blank} {one : α} {cs : List α}

theorem run_forward : Forward (run blank) := fun _ _ cs => by cases cs <;> rfl

theorem run_consumes : Consumes (run blank) := by
  intro prev cs b rest h
  cases cs with
  | nil => cases h
  | cons c cs =>
      rw [run] at h
      split at h
      · cases h
        exact Nat.lt_succ_of_le (List.dropWhile_sublist _).length_le
      · cases h

@[simp] theorem squeeze_nil : squeeze blank one [] = [] := rfl

theorem squeeze_cons_of_not_blank {c : α} (hc : blank c = false) :
    squeeze blank one (c :: cs) = c :: squeeze blank one cs :=
  sub_cons_of_none run_forward (by rw [run, if_neg (by simp [hc])])

theorem squeeze_cons_of_blank {c : α} (hc : blank c = true) :
    squeeze blank one (c :: cs) = one :: squeeze blank one (cs.dropWhile blank) :=
  sub_cons_of_some run_forward run_consumes (by rw [run, if_pos hc])

/-- An element that is no blank is squeezed with nothing before it. -/
theorem squeeze_append_cons {c : α} (hc : blank c = false) (ds : List α) :
    squeeze blank one (cs ++ c :: ds) = squeeze blank one cs ++ c :: squeeze blank one ds := by
  induction hn : cs.length using Nat.strongRecOn generalizing cs with
  | ind n ih =>
      subst hn
      cases cs with
      | nil => rw [List.nil_append, squeeze_cons_of_not_blank hc, squeeze_nil, List.nil_append]
      | cons b bs =>
          rw [List.cons_append]
          by_cases hb : blank b = true
          · have hdrop : (bs ++ c :: ds).dropWhile blank = bs.dropWhile blank ++ c :: ds := by
              rw [List.dropWhile_append]
              split
              next hnil =>
                rw [List.isEmpty_iff.mp hnil, List.nil_append, List.dropWhile_cons_of_neg (by simp [hc])]
              next => rfl
            have hlen : (bs.dropWhile blank).length < (b :: bs).length :=
              Nat.lt_succ_of_le (List.dropWhile_sublist _).length_le
            rw [squeeze_cons_of_blank hb, squeeze_cons_of_blank hb, hdrop, ih _ hlen rfl, List.cons_append]
          · rw [Bool.not_eq_true] at hb
            rw [squeeze_cons_of_not_blank hb, squeeze_cons_of_not_blank hb, ih _ (Nat.lt_succ_self _) rfl,
              List.cons_append]

/-- What is squeezed already stays as it is. -/
theorem squeeze_of_squeezed (h : Squeezed blank one cs) : squeeze blank one cs = cs := by
  induction cs with
  | nil => rfl
  | cons c cs ih =>
      have ih := ih ⟨fun d hd => h.only d (List.mem_cons_of_mem c hd), h.apart.tail⟩
      by_cases hc : blank c = true
      · have hdrop : cs.dropWhile blank = cs := by
          cases cs with
          | nil => rfl
          | cons d ds =>
              have hd : ¬(blank c = true ∧ blank d = true) := (List.isChain_cons_cons.mp h.apart).1
              exact List.dropWhile_cons_of_neg fun hblank => hd ⟨hc, hblank⟩
        rw [squeeze_cons_of_blank hc, hdrop, ih, h.only c List.mem_cons_self hc]
      · rw [squeeze_cons_of_not_blank (by simpa using hc), ih]

theorem Squeezed.infix {ds : List α} (h : Squeezed blank one cs) (hds : ds <:+: cs) : Squeezed blank one ds :=
  ⟨fun c hc => h.only c (hds.subset hc), h.apart.infix hds⟩

/-- Squeezing leaves no run. -/
theorem squeezed_squeeze (cs : List α) : Squeezed blank one (squeeze blank one cs) := by
  induction hn : cs.length using Nat.strongRecOn generalizing cs with
  | ind n ih =>
      subst hn
      cases cs with
      | nil => exact ⟨by simp, .nil⟩
      | cons c cs =>
          by_cases hc : blank c = true
          · have hlen : (cs.dropWhile blank).length < (c :: cs).length :=
              Nat.lt_succ_of_le (List.dropWhile_sublist _).length_le
            have hrest := ih _ hlen _ rfl
            rw [squeeze_cons_of_blank hc]
            refine ⟨List.forall_mem_cons.mpr ⟨fun _ => rfl, hrest.only⟩, ?_⟩
            -- what follows a run is no blank, or nothing
            have hstop : Stops blank (cs.dropWhile blank) := stops_dropWhile
            cases hd : cs.dropWhile blank with
            | nil => exact .singleton _
            | cons d ds =>
                rw [hd] at hrest hstop
                have hblank := stops_cons.mp hstop
                rw [squeeze_cons_of_not_blank hblank] at hrest ⊢
                exact .cons_cons (by simp [hblank]) hrest.apart
          · rw [Bool.not_eq_true] at hc
            have hrest := ih _ (Nat.lt_succ_self _) cs rfl
            rw [squeeze_cons_of_not_blank hc]
            refine ⟨List.forall_mem_cons.mpr ⟨fun h => absurd h (by simp [hc]), hrest.only⟩, ?_⟩
            cases hd : squeeze blank one cs with
            | nil => exact .singleton _
            | cons d ds => exact .cons_cons (by simp [hc]) (hd ▸ hrest.apart)

/-- A squeezed part with no blank at its ends is still there after squeezing. -/
theorem infix_squeeze {part : List α} (hpart : Squeezed blank one part)
    (hhead : ∀ c ∈ part.head?, blank c = false) (hlast : ∀ c ∈ part.getLast?, blank c = false) (h : part <:+: cs) :
    part <:+: squeeze blank one cs := by
  obtain ⟨before, after, rfl⟩ := h
  rcases List.eq_nil_or_concat part with rfl | ⟨start, last, rfl⟩
  · exact List.nil_infix
  have hblank := hlast last (by simp)
  have hstart : squeeze blank one (start ++ [last]) = start ++ [last] := squeeze_of_squeezed (by simpa using hpart)
  cases start with
  | nil =>
      rw [List.append_assoc, List.concat_eq_append, List.nil_append, List.singleton_append,
        squeeze_append_cons hblank]
      exact ⟨squeeze blank one before, squeeze blank one after, by simp⟩
  | cons c start =>
      have hc := hhead c (by simp)
      have hsplit : squeeze blank one (c :: start ++ last :: after) =
          c :: start ++ last :: squeeze blank one after := by
        rw [squeeze_append_cons hblank, squeeze_nil] at hstart
        rw [squeeze_append_cons hblank, List.append_cancel_right hstart]
      rw [List.cons_append, squeeze_cons_of_not_blank hc, List.cons_append, List.cons.injEq] at hsplit
      have hall : before ++ (c :: start).concat last ++ after = before ++ c :: (start ++ last :: after) := by simp
      rw [hall, squeeze_append_cons hc, hsplit.2]
      exact ⟨squeeze blank one before, squeeze blank one after, by simp⟩

end Runs

end Rewriting
