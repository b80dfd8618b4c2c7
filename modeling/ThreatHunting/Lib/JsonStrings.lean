import ThreatHunting.Lib.JsonText

/-!
# ThreatHunting.Lib.JsonStrings

The strings in a value that `json.loads` reads are shorter than its text.
-/

namespace Json

open Fallible

mutual

/-- The strings in a value. The keys of its objects are not among them. -/
def texts : Json → List String
  | .string s => [s]
  | .array items => textsItems items
  | .object members => textsMembers members
  | _ => []

def textsItems : List Json → List String
  | [] => []
  | j :: js => texts j ++ textsItems js

def textsMembers : List (String × Json) → List String
  | [] => []
  | (_, j) :: ms => texts j ++ textsMembers ms

end

theorem textsItems_eq_flatMap (items : List Json) : textsItems items = items.flatMap texts := by
  induction items with
  | nil => rfl
  | cons j js ih => rw [textsItems, ih, List.flatMap_cons]

theorem textsMembers_eq_flatMap (members : List (String × Json)) : textsMembers members = members.flatMap fun m => texts m.2 := by
  induction members with
  | nil => rfl
  | cons m ms ih => rw [textsMembers, ih, List.flatMap_cons]

theorem mem_of_mem_assign {ms : List (String × Json)} {m m' : String × Json} (h : m' ∈ assign ms m) : m' ∈ ms ∨ m' = m := by
  rw [assign] at h
  split at h
  · obtain ⟨m'', hm'', rfl⟩ := List.mem_map.mp h
    split
    · exact .inr rfl
    · exact .inl hm''
  · exact (List.mem_append.mp h).imp id List.mem_singleton.mp

/-- A `dict` has members that were read only. -/
theorem mem_of_mem_dict {ms : List (String × Json)} {m : String × Json} (h : m ∈ dict ms) : m ∈ ms := by
  have hfold : ∀ done : List (String × Json), m ∈ ms.foldl assign done → m ∈ done ∨ m ∈ ms := by
    clear h
    induction ms with
    | nil => exact fun done h => .inl h
    | cons m' ms ih =>
        intro done h
        rcases ih (assign done m') h with hdone | hms
        · rcases mem_of_mem_assign hdone with hdone | rfl
          · exact .inl hdone
          · exact .inr List.mem_cons_self
        · exact .inr (List.mem_cons_of_mem m' hms)
  exact (hfold [] h).resolve_left List.not_mem_nil

theorem length_skipBlank_le (cs : List Char) : (skipBlank cs).length ≤ cs.length :=
  (List.dropWhile_suffix _).length_le

theorem length_scanUnit {cs r : List Char} {n : Nat} (h : scanUnit cs = some (n, r)) : r.length < cs.length := by
  match cs, h with
  | a :: b :: c :: d :: cs, h =>
      simp only [scanUnit, Option.bind_eq_bind, Option.bind_eq_some_iff, Option.pure_def, Option.some.injEq,
        Prod.mk.injEq] at h
      obtain ⟨_, -, _, -, _, -, _, -, -, rfl⟩ := h
      simp only [List.length_cons]
      omega

theorem length_scanEscape {cs r : List Char} {c : Char} (h : scanEscape cs = some (c, r)) : r.length < cs.length := by
  unfold scanEscape at h
  split at h
  case h_9 cs =>
    obtain ⟨⟨unit, rest⟩, hunit, h⟩ := Option.bind_eq_some_iff.mp h
    have hlength := length_scanUnit hunit
    rw [List.length_cons]
    simp only [Option.pure_def] at h
    split at h
    · cases h
      omega
    · split at h
      · cases h
      · split at h
        next low =>
          -- the second half of a surrogate pair is read as well
          obtain ⟨⟨low, rest⟩, hlow, h⟩ := Option.bind_eq_some_iff.mp h
          have hpair := length_scanUnit hlow
          simp only [List.length_cons] at hlength
          split at h
          · have hr : rest = r := (Prod.mk.inj (Option.some.inj h)).2
            rw [← hr]
            omega
          · cases h
        next => cases h
  case h_10 => cases h
  all_goals
    cases h
    exact Nat.lt_succ_self _

theorem length_scanChar {cs r : List Char} {c : Char} (h : scanChar cs = some (c, r)) : r.length < cs.length := by
  match cs, h with
  | [], h => cases h
  | d :: cs, h =>
      by_cases hd : d = '\\'
      · subst hd
        exact (length_scanEscape h).trans (Nat.lt_succ_self _)
      · rw [scanChar] at h
        · split at h
          · cases h
          · cases h
            exact Nat.lt_succ_self _
        · exact hd

/-- A string is shorter than its literal. -/
theorem length_scanString {n : Nat} {cs s r : List Char} (h : scanString n cs = some (s, r)) :
    s.length + r.length < cs.length := by
  induction n generalizing cs s r with
  | zero =>
      unfold scanString at h
      split at h
      next =>
        cases h
        simp
      next heq _ => cases heq
      next => cases h
  | succ n ih =>
      unfold scanString at h
      split at h
      next =>
        cases h
        simp
      next heq _ =>
        cases heq
        obtain ⟨⟨c, rest⟩, hchar, h⟩ := Option.bind_eq_some_iff.mp h
        obtain ⟨⟨s', rest'⟩, hrest, h⟩ := Option.bind_eq_some_iff.mp h
        cases h
        have hshorter := ih hrest
        have hread := length_scanChar hchar
        rw [List.length_cons]
        omega
      next => cases h

/-! ### Numbers and constants -/

theorem length_numberParts {cs r : List Char} {parts : List Char × List Char × List Char}
    (h : numberParts cs = some (parts, r)) : r.length ≤ cs.length := by
  obtain ⟨⟨integer, r₁⟩, hinteger, h⟩ := Option.bind_eq_some_iff.mp h
  simp only [Option.pure_def, Option.some.injEq, Prod.mk.injEq] at h
  obtain ⟨rfl, rfl⟩ := h
  have hall := ((consumed_integerPart hinteger).1.append (consumed_fractionPart r₁)).append
    (consumed_exponentPart (fractionPart r₁).2)
  rw [hall.1, List.length_append]
  exact Nat.le_add_left _ _

/-- A number has no strings. -/
theorem scanNumber_texts {float_of : List Char → Json} (hfloat : ∀ ds, texts (float_of ds) = []) {cs r : List Char}
    {j : Json} (h : scanNumber float_of cs = .ok (j, r)) : r.length ≤ cs.length ∧ texts j = [] := by
  obtain ⟨⟨⟨integer, fraction, exponent⟩, rest⟩, hparts, h⟩ := bind_eq_ok.mp h
  have hlength := length_numberParts (expect_eq_ok.mp hparts)
  by_cases hint : (fraction.isEmpty && exponent.isEmpty) = true
  · simp only [if_pos hint] at h
    obtain ⟨n, -, h⟩ := bind_eq_ok.mp h
    cases h
    exact ⟨hlength, rfl⟩
  · simp only [if_neg hint] at h
    cases h
    exact ⟨hlength, hfloat _⟩

theorem scanConstant_texts {cs r : List Char} {j : Json} (h : scanConstant cs = some (j, r)) :
    r.length ≤ cs.length ∧ texts j = [] := by
  unfold scanConstant at h
  split at h
  case h_4 => cases h
  all_goals
    cases h
    exact ⟨by simp only [List.length_cons]; omega, rfl⟩

theorem scanNonfinite_texts {cs r : List Char} {j : Json} (h : scanNonfinite cs = some (j, r)) :
    r.length ≤ cs.length ∧ texts j = [] := by
  unfold scanNonfinite at h
  split at h
  case h_4 => cases h
  all_goals
    cases h
    exact ⟨by simp only [List.length_cons]; omega, rfl⟩

/-! ### Values -/

variable {float_of : List Char → Json}

/-- What is read leaves no more text than there was, and its strings are shorter than that. -/
def Shorter (cs r : List Char) (strings : List String) : Prop := r.length ≤ cs.length ∧ ∀ s ∈ strings, s.length < cs.length

theorem Shorter.mono {cs cs' r : List Char} {strings : List String} (h : Shorter cs r strings)
    (hle : cs.length ≤ cs'.length) : Shorter cs' r strings :=
  ⟨h.1.trans hle, fun s hs => (h.2 s hs).trans_le hle⟩

/-- Some is read first, and more of what is left. -/
theorem Shorter.append {cs r r' cs' : List Char} {strings strings' : List String} (h : Shorter cs r strings)
    (h' : Shorter cs' r' strings') (hle : cs'.length ≤ r.length) : Shorter cs r' (strings ++ strings') := by
  have hrest := h'.mono (hle.trans h.1)
  refine ⟨hrest.1, fun s hs => ?_⟩
  rcases List.mem_append.mp hs with hs | hs
  · exact h.2 s hs
  · exact hrest.2 s hs

/-- Something is skipped. -/
theorem Shorter.skip {cs r r' : List Char} {strings : List String} (h : Shorter cs r strings)
    (hle : r'.length ≤ r.length) : Shorter cs r' strings := ⟨hle.trans h.1, h.2⟩

theorem length_of_skipBlank {cs r : List Char} {c : Char} (h : skipBlank cs = c :: r) : r.length < cs.length := by
  have hlength := length_skipBlank_le cs
  rw [h, List.length_cons] at hlength
  exact hlength

mutual

theorem scanOnce_shorter (hfloat : ∀ ds, texts (float_of ds) = []) {n : Nat} {cs r : List Char} {j : Json}
    (h : scanOnce float_of n cs = .ok (j, r)) : Shorter cs r (texts j) := by
  match n with
  | 0 => cases h
  | n + 1 =>
      unfold scanOnce at h
      split at h
      next cs =>
        obtain ⟨⟨s, rest⟩, hstring, h⟩ := map_eq_ok.mp h
        cases h
        have hlength := length_scanString (expect_eq_ok.mp hstring)
        rw [Shorter, List.length_cons, texts]
        refine ⟨by omega, fun s' hs' => ?_⟩
        rw [List.mem_singleton.mp hs', String.length_ofList]
        omega
      next cs =>
        split at h
        next hclose =>
          cases h
          exact ⟨(length_of_skipBlank hclose).le.trans (Nat.le_succ _), nofun⟩
        next =>
          obtain ⟨⟨items, rest⟩, hitems, h⟩ := map_eq_ok.mp h
          cases h
          exact (scanItems_shorter hfloat hitems).mono ((length_skipBlank_le cs).trans (Nat.le_succ _))
      next cs =>
        split at h
        next hclose =>
          cases h
          exact ⟨(length_of_skipBlank hclose).le.trans (Nat.le_succ _), nofun⟩
        next =>
          obtain ⟨⟨ms, rest⟩, hmembers, h⟩ := map_eq_ok.mp h
          cases h
          have hshorter : Shorter ('{' :: cs) r (textsMembers ms) :=
            (scanMembers_shorter hfloat hmembers).mono ((length_skipBlank_le cs).trans (Nat.le_succ _))
          refine ⟨hshorter.1, fun s hs => hshorter.2 s ?_⟩
          rw [texts, textsMembers_eq_flatMap, List.mem_flatMap] at hs
          obtain ⟨m, hm, hs⟩ := hs
          rw [textsMembers_eq_flatMap, List.mem_flatMap]
          exact ⟨m, mem_of_mem_dict hm, hs⟩
      next =>
        have hnone : ∀ {j r}, r.length ≤ cs.length ∧ texts j = [] → Shorter cs r (texts j) := fun ⟨hlength, htexts⟩ =>
          ⟨hlength, by rw [htexts]; exact nofun⟩
        split at h
        next found hconstant =>
          cases h
          exact hnone (scanConstant_texts hconstant)
        next =>
          split at h
          · exact hnone (scanNumber_texts hfloat h)
          · exact hnone (scanNonfinite_texts (expect_eq_ok.mp h))
termination_by n

theorem scanItems_shorter (hfloat : ∀ ds, texts (float_of ds) = []) {n : Nat} {cs r : List Char} {js : List Json}
    (h : scanItems float_of n cs = .ok (js, r)) : Shorter cs r (textsItems js) := by
  match n with
  | 0 => cases h
  | n + 1 =>
      obtain ⟨⟨item, rest⟩, hitem, h⟩ := bind_eq_ok.mp h
      have hfirst := scanOnce_shorter hfloat hitem
      simp only at h
      split at h
      next hclose =>
        cases h
        rw [textsItems, textsItems, List.append_nil]
        exact hfirst.skip (length_of_skipBlank hclose).le
      next rest' hcomma =>
        obtain ⟨⟨items, rest⟩, hitems, h⟩ := bind_eq_ok.mp h
        cases h
        exact hfirst.append (scanItems_shorter hfloat hitems)
          ((length_skipBlank_le rest').trans (length_of_skipBlank hcomma).le)
      next => cases h
termination_by n

theorem scanMembers_shorter (hfloat : ∀ ds, texts (float_of ds) = []) {n : Nat} {cs r : List Char}
    {ms : List (String × Json)} (h : scanMembers float_of n cs = .ok (ms, r)) : Shorter cs r (textsMembers ms) := by
  match n with
  | 0 =>
      unfold scanMembers at h
      cases h
  | n + 1 =>
      unfold scanMembers at h
      split at h
      next n' cs heq =>
        cases heq
        obtain ⟨⟨key, afterKey⟩, hkey, h⟩ := bind_eq_ok.mp h
        have hstring := length_scanString (expect_eq_ok.mp hkey)
        simp only at h
        split at h
        next rest hcolon =>
          obtain ⟨⟨value, afterValue⟩, hvalue, h⟩ := bind_eq_ok.mp h
          have hbefore : (skipBlank rest).length ≤ ('"' :: cs).length := by
            have hblank := length_skipBlank_le rest
            have hcolon := length_of_skipBlank hcolon
            rw [List.length_cons]
            omega
          have hfirst := (scanOnce_shorter hfloat hvalue).mono hbefore
          simp only at h
          split at h
          next hclose =>
            cases h
            rw [textsMembers, textsMembers, List.append_nil]
            exact hfirst.skip (length_of_skipBlank hclose).le
          next rest hcomma =>
            obtain ⟨⟨ms, afterMembers⟩, hmembers, h⟩ := bind_eq_ok.mp h
            cases h
            exact hfirst.append (scanMembers_shorter hfloat hmembers)
              ((length_skipBlank_le rest).trans (length_of_skipBlank hcomma).le)
          next => cases h
        next => cases h
      next => cases h
termination_by n

end

/-- **Strings.** The strings in a value that is read are shorter than its text. -/
theorem length_lt_of_loads (hfloat : ∀ ds, texts (float_of ds) = []) {cs : List Char} {j : Json}
    (h : loads float_of cs = .ok j) : ∀ s ∈ texts j, s.length < cs.length := by
  obtain ⟨⟨j', rest⟩, hscan, h⟩ := bind_eq_ok.mp h
  have hshorter := (scanOnce_shorter hfloat hscan).mono (length_skipBlank_le cs)
  simp only at h
  split at h
  · cases h
    exact hshorter.2
  · cases h

/-! ### Integers that are too long -/

/-- A text of more nines than Python converts is no `JSONDecodeError`. -/
theorem loads_nines (float_of : List Char → Json) {n : Nat} (hlong : maxDigits < n) :
    loads float_of (List.replicate n '9') = .error .value_error := by
  obtain ⟨n, rfl⟩ : ∃ m, n = m + 1 := ⟨n - 1, by omega⟩
  have hdigits : ∀ c ∈ List.replicate n '9', c.isDigit = true := fun c hc => List.eq_of_mem_replicate hc ▸ rfl
  have htake : (List.replicate n '9').takeWhile Char.isDigit = List.replicate n '9' := List.takeWhile_eq_self_iff.mpr hdigits
  have hdrop : (List.replicate n '9').dropWhile Char.isDigit = [] := List.dropWhile_eq_nil_iff.mpr hdigits
  have hparts : numberParts ('9' :: List.replicate n '9') = some (('9' :: List.replicate n '9', [], []), []) := by
    have hinteger : integerPart ('9' :: List.replicate n '9') = some ('9' :: List.replicate n '9', []) := by
      show (if '9'.isDigit = true then some ('9' :: _, _) else none) = _
      rw [htake, hdrop]
      rfl
    rw [numberParts, hinteger]
    rfl
  have hint : intOf ('9' :: List.replicate n '9') = .error .value_error := by
    have hlength : ¬('9' :: List.replicate n '9').length ≤ maxDigits := by
      rw [List.length_cons, List.length_replicate]
      omega
    rw [intOf, if_neg hlength]
    exact fun _ heq => absurd (List.cons.inj heq).1 (by decide)
  have hnumber : scanNumber float_of ('9' :: List.replicate n '9') = .error .value_error := by
    rw [scanNumber, hparts, expect, ok_bind]
    simp only [List.isEmpty_nil, Bool.and_self, if_true, hint]
    rfl
  have hscan : scanOnce float_of (n + 2) ('9' :: List.replicate n '9') = .error .value_error := by
    have hconstant : scanConstant ('9' :: List.replicate n '9') = none := rfl
    rw [scanOnce, hconstant, hparts]
    · exact hnumber
    all_goals exact fun _ heq => absurd (List.cons.inj heq).1 (by decide)
  rw [List.replicate_succ, loads, List.length_cons, List.length_replicate, skipBlank_cons (by decide), hscan]
  rfl

end Json
