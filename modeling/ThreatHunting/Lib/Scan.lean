import Mathlib

/-!
# Scanning a list into tokens

The two ways a lexer walks over its input. `tokens` reads from left to right,
dropping separators and asking `next` for one token at a time; `Reads` is the
relation it computes. `positions` lists every place a search may begin, each
with the element before it, which is what a look-behind consults.
-/

namespace Scan

variable {α β : Type}

/-- A token reader returns a token and a remainder shorter than its input. -/
def Consuming (next : List α → Option (β × List α)) : Prop :=
  ∀ {cs t rest}, next cs = some (t, rest) → rest.length < cs.length

/-- `tokens` with a bound on the number of steps; the input's length suffices. -/
def tokensWithin (skip : α → Bool) (next : List α → Option (β × List α)) :
    Nat → List α → Option (List β)
  | _, [] => some []
  | 0, _ :: _ => none
  | n + 1, c :: cs =>
      if skip c then tokensWithin skip next n cs
      else match next (c :: cs) with
        | none => none
        | some (t, rest) => (tokensWithin skip next n rest).map (t :: ·)

/-- Read `cs` as tokens separated by elements to skip. -/
def tokens (skip : α → Bool) (next : List α → Option (β × List α)) (cs : List α) :
    Option (List β) :=
  tokensWithin skip next cs.length cs

/-- `cs` reads as the tokens `ts`. -/
inductive Reads (skip : α → Bool) (next : List α → Option (β × List α)) :
    List α → List β → Prop
  | nil : Reads skip next [] []
  | skip {c cs ts} : skip c = true → Reads skip next cs ts → Reads skip next (c :: cs) ts
  | token {c cs t rest ts} : skip c = false → next (c :: cs) = some (t, rest) →
      Reads skip next rest ts → Reads skip next (c :: cs) (t :: ts)

section Tokens

variable {skip : α → Bool} {next : List α → Option (β × List α)}

theorem reads_of_tokensWithin :
    ∀ {n : Nat} {cs : List α} {ts}, tokensWithin skip next n cs = some ts → Reads skip next cs ts
  | n, [], ts, h => by
      simp only [tokensWithin, Option.some.injEq] at h
      exact h ▸ .nil
  | 0, _ :: _, _, h => by simp [tokensWithin] at h
  | n + 1, c :: cs, ts, h => by
      rw [tokensWithin] at h
      by_cases hc : skip c = true
      · rw [if_pos hc] at h
        exact .skip hc (reads_of_tokensWithin h)
      · rw [if_neg hc] at h
        cases hn : next (c :: cs) with
        | none => simp [hn] at h
        | some p =>
            obtain ⟨t, rest⟩ := p
            simp only [hn, Option.map_eq_some_iff] at h
            obtain ⟨ts', h', rfl⟩ := h
            exact .token (by simpa using hc) hn (reads_of_tokensWithin h')

theorem tokensWithin_of_reads (hnext : Consuming next) {cs : List α} {ts}
    (h : Reads skip next cs ts) :
    ∀ {n : Nat}, cs.length ≤ n → tokensWithin skip next n cs = some ts := by
  induction h with
  | nil => intro n _; cases n <;> rfl
  | skip hc _ ih =>
      intro n hn
      obtain ⟨n, rfl⟩ := Nat.exists_eq_add_one_of_ne_zero (n := n) (by rintro rfl; simp at hn)
      rw [tokensWithin, if_pos hc]
      exact ih (by simpa using hn)
  | @token c cs t rest ts hc ht _ ih =>
      intro n hn
      obtain ⟨n, rfl⟩ := Nat.exists_eq_add_one_of_ne_zero (n := n) (by rintro rfl; simp at hn)
      have hlen : rest.length ≤ n := by
        have := hnext ht
        simp only [List.length_cons] at *
        omega
      rw [tokensWithin, if_neg (by simp [hc]), ht]
      simp [ih hlen]

theorem reads_of_tokens {cs : List α} {ts} (h : tokens skip next cs = some ts) :
    Reads skip next cs ts :=
  reads_of_tokensWithin h

/-- `tokens` computes the reading, whenever there is one. -/
theorem tokens_eq_some_iff (hnext : Consuming next) {cs : List α} {ts} :
    tokens skip next cs = some ts ↔ Reads skip next cs ts :=
  ⟨reads_of_tokens, fun h => tokensWithin_of_reads hnext h (Nat.le_refl _)⟩

end Tokens

/-- One reader follows another. `Place` holds wherever reading may stand; if, at every
such place, a token `t` of the first reader that meets `A` is matched by the token
`f t` of the second, then so is the whole reading, and `Q` holds of every token. -/
theorem Reads.follow {γ : Type} {skip : α → Bool} {next : List α → Option (β × List α)}
    {next' : List α → Option (γ × List α)} {f : β → γ} (Place : List α → Prop) (A Q : β → Prop)
    (hskip : ∀ c cs, Place (c :: cs) → skip c = true → Place cs)
    (htoken : ∀ c cs t rest ts, Place (c :: cs) → skip c = false →
      next (c :: cs) = some (t, rest) → Reads skip next rest ts → A t →
      next' (c :: cs) = some (f t, rest) ∧ Q t ∧ Place rest)
    {cs : List α} {ts : List β} (h : Reads skip next cs ts) :
    (∀ t ∈ ts, A t) → Place cs → Reads skip next' cs (ts.map f) ∧ ∀ t ∈ ts, Q t := by
  induction h with
  | nil => exact fun _ _ => ⟨.nil, by simp⟩
  | skip hc _ ih =>
      intro ha hp
      obtain ⟨hr, hq⟩ := ih ha (hskip _ _ hp hc)
      exact ⟨.skip hc hr, hq⟩
  | token hc ht hrest ih =>
      intro ha hp
      rw [List.forall_mem_cons] at ha
      obtain ⟨ht', hqt, hp'⟩ := htoken _ _ _ _ _ hp hc ht hrest ha.1
      obtain ⟨hr, hq⟩ := ih ha.2 hp'
      exact ⟨.token hc ht' hr, List.forall_mem_cons.mpr ⟨hqt, hq⟩⟩

/-! ### Layout -/

/-- A reader whose tokens are the text they are read from. -/
def Textual (next : List α → Option (List α × List α)) : Prop :=
  ∀ {cs t rest}, next cs = some (t, rest) → cs = t ++ rest ∧ t ≠ []

/-- `cs` is the tokens `ts` written one after the other, with elements to skip between. -/
inductive Laid (skip : α → Bool) : List α → List (List α) → Prop
  | nil : Laid skip [] []
  | skip {c cs ts} : skip c = true → Laid skip cs ts → Laid skip (c :: cs) ts
  | token {t rest ts} : Laid skip rest ts → Laid skip (t ++ rest) (t :: ts)

section Layout

variable {skip : α → Bool} {next : List α → Option (List α × List α)}

theorem Reads.laid (hnext : Textual next) {cs : List α} {ts} (h : Reads skip next cs ts) :
    Laid skip cs ts := by
  induction h with
  | nil => exact .nil
  | skip hc _ ih => exact .skip hc ih
  | token _ ht _ ih => exact (hnext ht).1 ▸ .token ih

theorem Laid.blank {cs : List α} (h : Laid skip cs []) : ∀ c ∈ cs, skip c = true := by
  generalize hts : ([] : List (List α)) = ts at h
  induction h with
  | nil => simp
  | skip hc _ ih => exact List.forall_mem_cons.mpr ⟨hc, ih hts⟩
  | token _ _ => simp at hts

/-- A token is found in the text, after the tokens before it. -/
theorem Laid.split {cs : List α} {ts₁ ts₂ : List (List α)} {t : List α}
    (h : Laid skip cs (ts₁ ++ t :: ts₂)) :
    ∃ x y, cs = x ++ (t ++ y) ∧ Laid skip x ts₁ ∧ Laid skip y ts₂ := by
  generalize hts : ts₁ ++ t :: ts₂ = ts at h
  induction h generalizing ts₁ with
  | nil => simp at hts
  | @skip c cs ts hc _ ih =>
      obtain ⟨x, y, rfl, hx, hy⟩ := ih hts
      exact ⟨c :: x, y, rfl, .skip hc hx, hy⟩
  | @token u rest ts hrest ih =>
      cases ts₁ with
      | nil =>
          simp only [List.nil_append, List.cons.injEq] at hts
          obtain ⟨rfl, rfl⟩ := hts
          exact ⟨[], rest, rfl, .nil, hrest⟩
      | cons u' ts₁ =>
          simp only [List.cons_append, List.cons.injEq] at hts
          obtain ⟨rfl, hts⟩ := hts
          obtain ⟨x, y, rfl, hx, hy⟩ := ih hts
          exact ⟨u' ++ x, y, by simp, .token hx, hy⟩

/-- The last token of a text has only elements to skip after it. -/
theorem Laid.last {cs : List α} {ts : List (List α)} {t : List α} (h : Laid skip cs (ts ++ [t])) :
    ∃ x sp, cs = x ++ (t ++ sp) ∧ ∀ c ∈ sp, skip c = true := by
  obtain ⟨x, y, rfl, -, hy⟩ := h.split
  exact ⟨x, y, rfl, hy.blank⟩

/-- Leading elements to skip do not matter. -/
theorem Reads.dropWhile {cs : List α} {ts} (h : Reads skip next cs ts) :
    Reads skip next (cs.dropWhile skip) ts := by
  induction h with
  | nil => exact .nil
  | skip hc _ ih => rwa [List.dropWhile_cons_of_pos hc]
  | token hc ht hrest _ =>
      rw [List.dropWhile_cons_of_neg (by simp [hc])]
      exact .token hc ht hrest

/-- A text that can be appended to without disturbing a reading extends it. -/
theorem Reads.append {cs tail : List α} {ts us : List (List α)}
    (hnext : ∀ {cs t rest}, next cs = some (t, rest) → next (cs ++ tail) = some (t, rest ++ tail))
    (h : Reads skip next cs ts) (htail : Reads skip next tail us) :
    Reads skip next (cs ++ tail) (ts ++ us) := by
  induction h with
  | nil => exact htail
  | skip hc _ ih => exact .skip hc ih
  | token hc ht _ ih => exact .token hc (hnext ht) ih

end Layout

/-! ### Maximal runs -/

section MaximalRuns

variable {p : α → Bool} {xs ys : List α}

/-- `ys` does not continue a run of `p`. -/
def Stops (p : α → Bool) (ys : List α) : Prop := ∀ c ∈ ys.head?, p c = false

@[simp] theorem stops_nil : Stops p [] := by simp [Stops]

@[simp] theorem stops_cons {c : α} : Stops p (c :: ys) ↔ p c = false := by simp [Stops]

theorem takeWhile_append_of_stops (hx : ∀ c ∈ xs, p c = true) (hy : Stops p ys) :
    (xs ++ ys).takeWhile p = xs := by
  rw [List.takeWhile_append_of_pos hx]
  cases ys with
  | nil => simp
  | cons c ys => simp [stops_cons.mp hy]

theorem dropWhile_append_of_stops (hx : ∀ c ∈ xs, p c = true) (hy : Stops p ys) :
    (xs ++ ys).dropWhile p = ys := by
  rw [List.dropWhile_append_of_pos hx]
  cases ys with
  | nil => rfl
  | cons c ys => simp [stops_cons.mp hy]

theorem stops_dropWhile : Stops p (xs.dropWhile p) := by
  intro c hc
  have h := List.head?_dropWhile_not p xs
  rw [Option.mem_def] at hc
  rwa [hc] at h

/-- A list is its longest run followed by what stops it. -/
theorem exists_run (p : α → Bool) (xs : List α) :
    ∃ run rest, xs = run ++ rest ∧ xs.takeWhile p = run ∧ xs.dropWhile p = rest ∧
      (∀ c ∈ run, p c = true) ∧ Stops p rest :=
  ⟨xs.takeWhile p, xs.dropWhile p, List.takeWhile_append_dropWhile.symm, rfl, rfl,
    List.all_eq_true.mp List.all_takeWhile, stops_dropWhile⟩

end MaximalRuns

/-! ### Searching -/

/-- Every non-empty suffix of the input, each with the element before it. -/
def positions : Option α → List α → List (Option α × List α)
  | _, [] => []
  | prev, c :: cs => (prev, c :: cs) :: positions (some c) cs

/-- Everything `f` finds, from left to right. -/
def findAll (f : Option α → List α → Option β) (cs : List α) : List β :=
  (positions none cs).filterMap fun p => f p.1 p.2

theorem mem_positions_append {prev : Option α} :
    ∀ {pre : List α} {c : α} {cs : List α},
      ((pre.getLast?).or prev, c :: cs) ∈ positions prev (pre ++ c :: cs)
  | [], c, cs => by simp [positions]
  | d :: pre, c, cs => by
      have ih : ((pre.getLast?).or (some d), c :: cs) ∈ positions (some d) (pre ++ c :: cs) :=
        mem_positions_append
      refine List.mem_cons_of_mem _ ?_
      cases pre with
      | nil => simpa using ih
      | cons e pre => simpa [List.getLast?_cons] using ih

/-- A search finds what `f` recognises at any place of the input. -/
theorem mem_findAll {f : Option α → List α → Option β} {pre : List α} {c : α} {cs : List α} {b : β}
    (h : f pre.getLast? (c :: cs) = some b) : b ∈ findAll f (pre ++ c :: cs) :=
  List.mem_filterMap.mpr ⟨(pre.getLast?.or none, c :: cs), mem_positions_append, by simpa using h⟩

theorem exists_of_mem_positions {prev q : Option α} {cs suffix : List α}
    (h : (q, suffix) ∈ positions prev cs) :
    ∃ pre c rest, cs = pre ++ c :: rest ∧ suffix = c :: rest ∧ q = (pre.getLast?).or prev := by
  induction cs generalizing prev with
  | nil => simp [positions] at h
  | cons d cs ih =>
      rw [positions, List.mem_cons] at h
      rcases h with h | h
      · cases h
        exact ⟨[], d, cs, rfl, rfl, rfl⟩
      · obtain ⟨pre, c, rest, rfl, rfl, rfl⟩ := ih h
        refine ⟨d :: pre, c, rest, rfl, rfl, ?_⟩
        rw [List.getLast?_cons]
        cases pre.getLast? <;> rfl

/-- What a search finds, `f` recognises at some place of the input. -/
theorem exists_of_mem_findAll {f : Option α → List α → Option β} {cs : List α} {b : β}
    (h : b ∈ findAll f cs) :
    ∃ pre c rest, cs = pre ++ c :: rest ∧ f pre.getLast? (c :: rest) = some b := by
  obtain ⟨⟨q, suffix⟩, hmem, hf⟩ := List.mem_filterMap.mp h
  obtain ⟨pre, c, rest, rfl, rfl, rfl⟩ := exists_of_mem_positions hmem
  exact ⟨pre, c, rest, rfl, by simpa using hf⟩

end Scan
