import Mathlib

/-!
# Shell-style patterns

`fnmatch p s` matches the text `s` against the pattern `p`, where `*` stands for
any text, `?` for any one character and every other character for itself. (The
bracket classes of shell patterns are not modelled: no caller can write one.)

`capture` and `fill` move a text from one pattern to another, where only `*` is
special: what the stars of the first pattern stand for is put in place of the stars
of the second.
-/

namespace Glob

/-- Some suffix of the input satisfies `k`. -/
def anySuffix (k : List Char → Bool) : List Char → Bool
  | [] => k []
  | c :: cs => k (c :: cs) || anySuffix k cs

/-- Does the pattern match the whole text? -/
def fnmatch : List Char → List Char → Bool
  | [] => List.isEmpty
  | p :: ps =>
      if p = '*' then anySuffix (fnmatch ps)
      else fun
        | [] => false
        | c :: cs => (p == '?' || p == c) && fnmatch ps cs

theorem anySuffix_eq_true {k : List Char → Bool} {cs : List Char} :
    anySuffix k cs = true ↔ ∃ pre suf, cs = pre ++ suf ∧ k suf = true := by
  induction cs with
  | nil => simp [anySuffix]
  | cons c cs ih =>
      simp only [anySuffix, Bool.or_eq_true, ih]
      constructor
      · rintro (h | ⟨pre, suf, rfl, h⟩)
        · exact ⟨[], c :: cs, rfl, h⟩
        · exact ⟨c :: pre, suf, rfl, h⟩
      · rintro ⟨pre, suf, hcs, h⟩
        cases pre with
        | nil => exact .inl (by rw [hcs]; exact h)
        | cons d pre =>
            simp only [List.cons_append, List.cons.injEq] at hcs
            exact .inr ⟨pre, suf, hcs.2, h⟩

@[simp] theorem fnmatch_nil {s : List Char} : fnmatch [] s = s.isEmpty := rfl

@[simp] theorem fnmatch_star {ps s : List Char} :
    fnmatch ('*' :: ps) s = anySuffix (fnmatch ps) s := rfl

theorem fnmatch_cons {p : Char} (hp : p ≠ '*') {ps : List Char} {c : Char} {cs : List Char} :
    fnmatch (p :: ps) (c :: cs) = ((p == '?' || p == c) && fnmatch ps cs) := by
  simp [fnmatch, hp]

/-- A pattern matches itself read as a text. -/
theorem fnmatch_self : ∀ s : List Char, fnmatch s s = true
  | [] => rfl
  | c :: cs => by
      by_cases hc : c = '*'
      · subst hc
        rw [fnmatch_star, anySuffix_eq_true]
        exact ⟨['*'], cs, rfl, fnmatch_self cs⟩
      · rw [fnmatch_cons hc]
        simp [fnmatch_self cs]

/-! ### Patterns in parts -/

section Parts

variable {part piece rest s : List Char}

/-- What a part without stars stands for: its own characters, and any character for each `?`. -/
def Stands (part piece : List Char) : Prop := List.Forall₂ (fun p c => p = '?' ∨ p = c) part piece

theorem Stands.length_eq (h : Stands part piece) : part.length = piece.length := List.Forall₂.length_eq h

theorem Stands.eq (h : Stands part piece) (hplain : '?' ∉ part) : part = piece := by
  induction h with
  | nil => rfl
  | @cons p c part piece hp _ ih =>
      obtain ⟨hfirst, hrest⟩ := not_or.mp (List.mem_cons.not.mp hplain)
      rw [hp.resolve_left (Ne.symm hfirst), ih hrest]

theorem stands_self (part : List Char) : Stands part part := List.forall₂_same.mpr fun _ _ => .inr rfl

/-- A part without stars is matched first. -/
theorem fnmatch_append (hpart : '*' ∉ part) :
    fnmatch (part ++ rest) s = true ↔ ∃ piece suf, s = piece ++ suf ∧ Stands part piece ∧ fnmatch rest suf = true := by
  induction part generalizing s with
  | nil =>
      constructor
      · exact fun h => ⟨[], s, rfl, .nil, h⟩
      · intro ⟨piece, suf, hs, hpiece, h⟩
        rw [List.forall₂_nil_left_iff.mp hpiece] at hs
        rwa [hs]
  | cons p part ih =>
      obtain ⟨hp, hpart⟩ := not_or.mp (List.mem_cons.not.mp hpart)
      rw [List.cons_append]
      constructor
      · intro h
        cases s with
        | nil => simp [fnmatch, Ne.symm hp] at h
        | cons c s =>
            rw [fnmatch_cons (Ne.symm hp), Bool.and_eq_true, ih hpart] at h
            obtain ⟨hc, piece, suf, rfl, hpiece, hsuf⟩ := h
            exact ⟨c :: piece, suf, rfl, .cons (by simpa using hc) hpiece, hsuf⟩
      · intro ⟨piece, suf, hs, hpiece, h⟩
        obtain ⟨c, tail, hc, htail, rfl⟩ := List.forall₂_cons_left_iff.mp hpiece
        rw [hs, List.cons_append, fnmatch_cons (Ne.symm hp), Bool.and_eq_true, ih hpart]
        exact ⟨by simpa using hc, tail, suf, rfl, htail, h⟩

theorem fnmatch_part (hpart : '*' ∉ part) : fnmatch part s = true ↔ Stands part s := by
  have happend : fnmatch (part ++ []) s = true ↔ _ := fnmatch_append hpart
  rw [List.append_nil] at happend
  rw [happend]
  constructor
  · intro ⟨piece, suf, hs, hpiece, hsuf⟩
    rw [List.isEmpty_iff.mp hsuf, List.append_nil] at hs
    rwa [hs]
  · exact fun h => ⟨s, [], (List.append_nil s).symm, h, rfl⟩

/-- Parts with texts between them. -/
def weave (parts caps : List (List Char)) : List Char :=
  parts.headD [] ++ (List.zipWith (· ++ ·) caps parts.tail).flatten

/-- A part, a star and the other parts. -/
theorem intercalate_cons {parts : List (List Char)} (hne : parts ≠ []) (part : List Char) :
    ['*'].intercalate (part :: parts) = part ++ '*' :: ['*'].intercalate parts := by
  rw [List.intercalate_cons_of_ne_nil hne, List.append_assoc, List.singleton_append]

/-- A star and the parts after it match a text of which the parts match an end. -/
theorem fnmatch_star_append (hpart : '*' ∉ part) {parts : List (List Char)} (hne : parts ≠ []) :
    fnmatch (['*'].intercalate (part :: parts)) s = true ↔ ∃ piece cap suf, s = piece ++ (cap ++ suf) ∧
      Stands part piece ∧ fnmatch (['*'].intercalate parts) suf = true := by
  rw [intercalate_cons hne, fnmatch_append hpart]
  constructor
  · intro ⟨piece, suf, hs, hpiece, hsuf⟩
    obtain ⟨cap, suf, rfl, hmatch⟩ := anySuffix_eq_true.mp hsuf
    exact ⟨piece, cap, suf, hs, hpiece, hmatch⟩
  · intro ⟨piece, cap, suf, hs, hpiece, hsuf⟩
    exact ⟨piece, cap ++ suf, hs, hpiece, anySuffix_eq_true.mpr ⟨cap, suf, rfl, hsuf⟩⟩

/-- A pattern matches the texts that its parts are woven into. -/
theorem fnmatch_intercalate {parts : List (List Char)} (hparts : ∀ part ∈ parts, '*' ∉ part) (hne : parts ≠ []) :
    fnmatch (['*'].intercalate parts) s = true ↔ ∃ pieces caps, List.Forall₂ Stands parts pieces ∧
      caps.length + 1 = parts.length ∧ s = weave pieces caps := by
  induction parts generalizing s with
  | nil => exact absurd rfl hne
  | cons part parts ih =>
      obtain ⟨hpart, hparts⟩ := List.forall_mem_cons.mp hparts
      by_cases hlast : parts = []
      · subst hlast
        rw [List.intercalate_singleton, fnmatch_part hpart]
        constructor
        · exact fun h => ⟨[s], [], .cons h .nil, rfl, by simp [weave]⟩
        · intro ⟨pieces, caps, hpieces, hlength, hs⟩
          obtain ⟨piece, pieces, hpiece, hnone, rfl⟩ := List.forall₂_cons_left_iff.mp hpieces
          rw [List.forall₂_nil_left_iff.mp hnone, List.length_eq_zero_iff.mp (Nat.succ.inj hlength)] at hs
          rw [hs]
          simpa [weave] using hpiece
      · rw [fnmatch_star_append hpart hlast]
        constructor
        · intro ⟨piece, cap, suf, hs, hpiece, hsuf⟩
          obtain ⟨pieces, caps, hpieces, hlength, rfl⟩ := (ih hparts hlast).mp hsuf
          refine ⟨piece :: pieces, cap :: caps, .cons hpiece hpieces, by simpa using hlength, ?_⟩
          cases hpieces with
          | nil => exact absurd rfl hlast
          | cons _ _ => simpa [weave] using hs
        · intro ⟨pieces, caps, hpieces, hlength, hs⟩
          obtain ⟨piece, pieces, hpiece, hrest, rfl⟩ := List.forall₂_cons_left_iff.mp hpieces
          cases caps with
          | nil => exact absurd (List.length_eq_zero_iff.mp (Nat.succ.inj hlength).symm) hlast
          | cons cap caps =>
              refine ⟨piece, cap, weave pieces caps, ?_, hpiece,
                (ih hparts hlast).mpr ⟨pieces, caps, hrest, Nat.succ.inj hlength, rfl⟩⟩
              cases hrest with
              | nil => exact absurd rfl hlast
              | cons _ _ => simpa [weave] using hs

end Parts

/-! ### Captures -/

/-- Let a star take as much of the input as leaves a suffix `k` accepts. -/
def starCapture {β : Type} (k : List Char → Option β) : List Char → Option (List Char × β)
  | [] => (k []).map fun b => ([], b)
  | c :: cs =>
      match starCapture k cs with
      | some (taken, b) => some (c :: taken, b)
      | none => (k (c :: cs)).map fun b => ([], b)

/-- What the stars of the pattern stand for in the text, if it matches. -/
def capture : List Char → List Char → Option (List (List Char))
  | [] => fun cs => if cs.isEmpty then some [] else none
  | p :: ps =>
      if p = '*' then fun cs => (starCapture (capture ps) cs).map fun m => m.1 :: m.2
      else fun
        | [] => none
        | c :: cs => if p == c then capture ps cs else none

/-- The pattern with its stars replaced. -/
def fill : List Char → List (List Char) → List Char
  | [], _ => []
  | p :: ps, caps =>
      if p = '*' then caps.headD [] ++ fill ps caps.tail else p :: fill ps caps

/-- Does the pattern match, with only `*` special? -/
def wildcard (p s : List Char) : Bool := (capture p s).isSome

theorem starCapture_isSome {β : Type} {k : List Char → Option β} {cs : List Char} :
    (starCapture k cs).isSome = true ↔ ∃ pre suf, cs = pre ++ suf ∧ (k suf).isSome = true := by
  rw [← anySuffix_eq_true]
  induction cs with
  | nil => simp [starCapture, anySuffix]
  | cons c cs ih =>
      rw [anySuffix, Bool.or_eq_true, ← ih, starCapture]
      cases starCapture k cs with
      | none => simp
      | some m => simp

/-- A filled pattern matches the pattern. -/
theorem wildcard_fill {p : List Char} : ∀ caps, wildcard p (fill p caps) = true := by
  induction p with
  | nil => exact fun _ => rfl
  | cons p ps ih =>
      intro caps
      by_cases hp : p = '*'
      · subst hp
        simp only [wildcard, capture, fill, if_true, Option.isSome_map, starCapture_isSome]
        exact ⟨caps.headD [], fill ps caps.tail, rfl, ih _⟩
      · simpa [wildcard, capture, fill, hp] using ih caps

/-- A pattern matches itself read as a text. -/
theorem wildcard_self (s : List Char) : wildcard s s = true := by
  induction s with
  | nil => rfl
  | cons c cs ih =>
      by_cases hc : c = '*'
      · subst hc
        simp only [wildcard, capture, if_true, Option.isSome_map, starCapture_isSome]
        exact ⟨['*'], cs, rfl, ih⟩
      · simpa [wildcard, capture, hc] using ih

end Glob
