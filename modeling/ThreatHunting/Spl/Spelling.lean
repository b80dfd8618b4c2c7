import ThreatHunting.Spl.Source
import ThreatHunting.Spl.Search

/-!
# ThreatHunting.Spl.Spelling

What the policy's readers accept as a scope field, a scope predicate and a word,
stated on the text itself, and how each agrees with the reading of
`ThreatHunting.Spl.Search`. A predicate is `Spelled` as a field, an `=` and a plain
value; the readers find exactly those.
-/

namespace ThreatHunting.Spl

open Scan Search

/-! ### Scope fields -/

theorem isKeyword_name (f : SourceField) : IsKeyword f.name := by
  cases f <;> decide

/-- A scope field as written, split off the front of a text. -/
theorem scopeFieldName_eq_some {cs m rest : Text} (h : scopeFieldName cs = some (m, rest)) :
    ∃ f : SourceField, takeKeyword f.name cs = some (m, rest) := by
  rw [scopeFieldName] at h
  rcases Option.or_eq_some_iff.mp h with h | ⟨-, h⟩
  · exact ⟨.index, h⟩
  · exact ⟨.sourcetype, h⟩

theorem scopeFieldName_append {cs m rest : Text} (h : scopeFieldName cs = some (m, rest)) :
    cs = m ++ rest := by
  obtain ⟨f, hf⟩ := scopeFieldName_eq_some h
  exact (takeKeyword_eq_some hf).1

/-- What follows a keyword that fits before it does not decide whether it is there. -/
theorem takeKeyword_change {kw m rest : Text} (hlen : kw.length ≤ m.length) (rest' : Text) :
    takeKeyword kw (m ++ rest) = some (m, rest) ↔ takeKeyword kw (m ++ rest') = some (m, rest') := by
  rw [takeKeyword_append hlen, takeKeyword_append hlen]
  cases takeKeyword kw m with
  | none => simp
  | some p => simp +contextual [Prod.ext_iff]

theorem takeKeyword_eq_none_change {kw m rest : Text} (hlen : kw.length ≤ m.length) (rest' : Text) :
    takeKeyword kw (m ++ rest) = none ↔ takeKeyword kw (m ++ rest') = none := by
  rw [takeKeyword_append hlen, takeKeyword_append hlen, Option.map_eq_none_iff,
    Option.map_eq_none_iff]

/-- What follows a scope field does not decide whether it is one. -/
theorem scopeFieldName_change {m rest : Text} (h : scopeFieldName (m ++ rest) = some (m, rest))
    (rest' : Text) : scopeFieldName (m ++ rest') = some (m, rest') := by
  have hlen : "index".toList.length ≤ m.length := by
    obtain ⟨f, hf⟩ := scopeFieldName_eq_some h
    rw [(takeKeyword_eq_some hf).2]
    cases f <;> decide
  rw [scopeFieldName] at h ⊢
  rcases Option.or_eq_some_iff.mp h with h | ⟨hn, h⟩
  · exact Option.or_eq_some_iff.mpr (.inl ((takeKeyword_change hlen rest').mp h))
  · have hlen' := (takeKeyword_eq_some h).2.ge
    exact Option.or_eq_some_iff.mpr (.inr
      ⟨(takeKeyword_eq_none_change hlen rest').mp hn, (takeKeyword_change hlen' rest').mp h⟩)

/-- A text does not begin with both scope fields. -/
theorem takeKeyword_index_of_sourcetype {m : Text}
    (h : m.map asciiLower = SourceField.sourcetype.name) (rest : Text) :
    takeKeyword "index".toList (m ++ rest) = none := by
  cases m with
  | nil => exact absurd h (by decide)
  | cons c m =>
      have hs : SourceField.sourcetype.name = 's' :: "ourcetype".toList := by decide
      rw [hs, List.map_cons, List.cons_eq_cons] at h
      have hc := h.1
      have hasc : isAscii c = true := isAscii_of_asciiLower (by rw [hc]; decide)
      have hne : matchesIgnoreCase 'i' c = false := by
        by_contra hmatch
        have hlower := asciiLower_of_matchesIgnoreCase (by decide) (by decide) hasc
          (Bool.eq_true_of_not_eq_false hmatch)
        rw [hc] at hlower
        exact absurd hlower (by decide)
      have hi : "index".toList = 'i' :: "ndex".toList := by decide
      rw [hi, List.cons_append, takeKeyword, if_neg (by simp [hne])]

theorem scopeFieldName_of_map_asciiLower {f : SourceField} {m : Text}
    (h : m.map asciiLower = f.name) (rest : Text) : scopeFieldName (m ++ rest) = some (m, rest) := by
  have hm := takeKeyword_of_map_asciiLower h rest
  rw [scopeFieldName]
  cases f with
  | index => exact Option.or_eq_some_iff.mpr (.inl hm)
  | sourcetype => exact Option.or_eq_some_iff.mpr (.inr ⟨takeKeyword_index_of_sourcetype h rest, hm⟩)

/-- An ASCII spelling folds to the field it names. -/
theorem exists_field_of_isAscii {cs m rest : Text} (h : scopeFieldName cs = some (m, rest))
    (hm : ∀ c ∈ m, isAscii c = true) :
    ∃ f : SourceField, m.map asciiLower = f.name ∧ casefold m = f.name := by
  obtain ⟨f, hf⟩ := scopeFieldName_eq_some h
  have hlower := map_asciiLower_of_takeKeyword (isKeyword_name f) hf hm
  exact ⟨f, hlower, by rw [casefold_of_isAscii hm, hlower]⟩

theorem isAscii_of_map_asciiLower {f : SourceField} {m : Text} (h : m.map asciiLower = f.name) :
    ∀ c ∈ m, isAscii c = true := by
  intro c hc
  have hmem : asciiLower c ∈ f.name := h ▸ List.mem_map_of_mem hc
  exact isAscii_of_asciiLower (isKeyword_name f _ hmem).1

/-- The field a predicate selects on. -/
def ScopePredicate.sourceField (p : ScopePredicate) : SourceField :=
  if p.foldedField == "index".toList then .index else .sourcetype

/-- The equality a predicate states. -/
def ScopePredicate.equality (p : ScopePredicate) : Equality := ⟨p.sourceField, p.selected⟩

theorem ScopePredicate.sourceField_eq {p : ScopePredicate} {f : SourceField}
    (h : casefold p.field = f.name) : p.sourceField = f := by
  rw [sourceField, foldedField, h]
  cases f <;> rfl

theorem fieldNamed_eq_some_iff {f : SourceField} {cs rest : Text} :
    fieldNamed f cs = some rest ↔ ∃ m, cs = m ++ rest ∧ m.map asciiLower = f.name := by
  rw [fieldNamed]
  constructor
  · intro h
    split at h
    · rename_i hm
      simp only [Option.some.injEq] at h
      exact ⟨_, by rw [← h, List.take_append_drop], hm⟩
    · simp at h
  · rintro ⟨m, rfl, hm⟩
    have hlen : f.name.length = m.length := by rw [← hm, List.length_map]
    rw [hlen, List.take_left, List.drop_left, if_pos hm]

/-! ### Scope predicates -/

/-- A scope value is a run of plain characters, bare or between quotes. -/
inductive ScopeValue : Text → Text → Prop
  | bare {v} : v ≠ [] → (∀ c ∈ v, isScopeValueChar c = true) → ScopeValue v v
  | quoted {q v} : isQuote q = true → v ≠ [] → (∀ c ∈ v, isScopeValueChar c = true) →
      ScopeValue (q :: (v ++ [q])) v

/-- The characters that mean something to a reader of words. -/
theorem isScopeValueChar_plain {c : Char} (h : isScopeValueChar c = true) :
    isDelimiter c = false ∧ isQuote c = false ∧ c ≠ '\\' ∧ c ≠ '|' := by
  have hspace : isSpace c = false := by
    by_contra hs
    have := of_isSpace (fun d => isScopeValueChar d = false) (by decide)
      (Bool.eq_true_of_not_eq_false hs)
    rw [h] at this
    exact absurd this (by simp)
  have hne : ∀ d ∈ ['(', ')', '"', '\'', '\\', '|'], c ≠ d := by
    intro d hd hcd
    have : ∀ d ∈ ['(', ')', '"', '\'', '\\', '|'], isScopeValueChar d = false := by decide
    rw [hcd, this d hd] at h
    exact absurd h (by simp)
  simp only [List.mem_cons, List.not_mem_nil, or_false, forall_eq_or_imp, forall_eq] at hne
  simp [isDelimiter, isQuote, hspace, hne]

theorem stops_of_endsScopeValue {rest : Text} (h : endsScopeValue rest = true) :
    Stops isScopeValueChar rest := by
  cases rest with
  | nil => exact stops_nil
  | cons c rest =>
      rw [stops_cons]
      by_contra hc
      obtain ⟨hd, -, -, hp⟩ := isScopeValueChar_plain (Bool.eq_true_of_not_eq_false hc)
      simp only [endsScopeValue, Bool.or_eq_true, beq_iff_eq, isDelimiter, Bool.or_eq_false_iff,
        beq_eq_false_iff_ne] at h hd
      rcases h with (h | h) | h
      · simp [h] at hd
      · exact hp h
      · exact hd.2 h

theorem scopeValue_eq_some {cs v rest : Text} (h : scopeValue cs = some (v, rest)) :
    ∃ w, cs = w ++ rest ∧ ScopeValue w v := by
  cases cs with
  | nil => simp [scopeValue] at h
  | cons c cs =>
      rw [scopeValue] at h
      split at h
      · rename_i hq
        obtain ⟨run, tail, rfl, htake, hdrop, hrun, -⟩ := exists_run isScopeValueChar cs
        rw [htake, hdrop] at h
        split at h
        · simp at h
        · simp at h
        · split at h
          · rename_i d rest' hd
            simp only [Option.some.injEq, Prod.mk.injEq] at h
            obtain ⟨rfl, rfl⟩ := h
            have hdc : d = c := by simpa using hd
            exact ⟨_, by simp [hdc], .quoted hq (by simp) hrun⟩
          · simp at h
      · obtain ⟨run, tail, hcs, htake, hdrop, hrun, -⟩ := exists_run isScopeValueChar (c :: cs)
        rw [htake, hdrop] at h
        split at h
        · simp at h
        · simp only [Option.some.injEq, Prod.mk.injEq] at h
          obtain ⟨rfl, rfl⟩ := h
          exact ⟨_, hcs, .bare (by simp) hrun⟩

theorem ScopeValue.ne_nil {w v : Text} (h : ScopeValue w v) : w ≠ [] := by
  cases h with
  | bare hv => exact hv
  | quoted => simp

/-- A scope value does not begin with whitespace. -/
theorem ScopeValue.head {w v : Text} (h : ScopeValue w v) :
    ∃ c w', w = c :: w' ∧ isSpace c = false := by
  cases h with
  | bare hv hc =>
      obtain ⟨c, v', rfl⟩ := List.exists_cons_of_ne_nil hv
      have hd := (isScopeValueChar_plain (hc c List.mem_cons_self)).1
      simp only [isDelimiter, Bool.or_eq_false_iff] at hd
      exact ⟨c, v', rfl, hd.1.1⟩
  | @quoted q v hq =>
      refine ⟨q, v ++ [q], rfl, ?_⟩
      simp only [isQuote, Bool.or_eq_true, beq_iff_eq] at hq
      rcases hq with rfl | rfl <;> decide

theorem ScopeValue.scopeValue {w v rest : Text} (h : ScopeValue w v)
    (hstop : Stops isScopeValueChar rest) : scopeValue (w ++ rest) = some (v, rest) := by
  cases h with
  | bare hv hc =>
      obtain ⟨c, v', rfl⟩ := List.exists_cons_of_ne_nil hv
      have hq := (isScopeValueChar_plain (hc c List.mem_cons_self)).2.1
      rw [List.cons_append, Spl.scopeValue, if_neg (by simpa [isQuote] using hq), ← List.cons_append,
        takeWhile_append_of_stops hc hstop, dropWhile_append_of_stops hc hstop]
  | @quoted q v hq hv hc =>
      obtain ⟨c, v', rfl⟩ := List.exists_cons_of_ne_nil hv
      have hqc : isScopeValueChar q = false := by
        by_contra hne
        exact absurd hq (by simp [(isScopeValueChar_plain (Bool.eq_true_of_not_eq_false hne)).2.1])
      have hstop' : Stops isScopeValueChar (q :: rest) := stops_cons.mpr hqc
      have hsplit : c :: v' ++ [q] ++ rest = (c :: v') ++ (q :: rest) := by simp
      rw [List.cons_append, hsplit, Spl.scopeValue, if_pos (by simpa [isQuote] using hq),
        takeWhile_append_of_stops hc hstop', dropWhile_append_of_stops hc hstop']
      simp

/-- `t` is a scope predicate as written. -/
inductive Spelled : Text → ScopePredicate → Prop
  | mk {m sp₁ sp₂ w v} : (∀ rest, scopeFieldName (m ++ rest) = some (m, rest)) →
      (∀ c ∈ sp₁, isSpace c = true) → (∀ c ∈ sp₂, isSpace c = true) → ScopeValue w v →
      Spelled (m ++ (sp₁ ++ '=' :: (sp₂ ++ w))) ⟨m, v⟩

theorem scopePredicate_eq_some_iff {cs rest : Text} {p : ScopePredicate} :
    scopePredicate cs = some (p, rest) ↔
      ∃ t, cs = t ++ rest ∧ Spelled t p ∧ endsScopeValue rest = true := by
  constructor
  · intro h
    rw [scopePredicate] at h
    split at h
    · simp at h
    · rename_i m r₁ hm
      split at h
      · rename_i r₂ hr₁
        split at h
        · rename_i v r₃ hv
          split at h
          · rename_i hend
            simp only [Option.some.injEq, Prod.mk.injEq] at h
            obtain ⟨rfl, rfl⟩ := h
            obtain ⟨sp₁, rfl, hsp₁, -⟩ := skipSpaces_eq_cons hr₁
            obtain ⟨w, hw, hval⟩ := scopeValue_eq_some hv
            obtain ⟨sp₂, tail, rfl, -, hdrop, hsp₂, -⟩ := exists_run isSpace r₂
            rw [skipSpaces, hdrop] at hw
            subst hw
            have hcs := scopeFieldName_append hm
            subst hcs
            exact ⟨_, by simp, .mk (fun rest' => scopeFieldName_change hm rest') hsp₁ hsp₂ hval, hend⟩
          · simp at h
        · simp at h
      · simp at h
  · rintro ⟨t, rfl, ht, hend⟩
    obtain @⟨m, sp₁, sp₂, w, v, hm, hsp₁, hsp₂, hval⟩ := ht
    have hsplit : m ++ (sp₁ ++ '=' :: (sp₂ ++ w)) ++ rest
        = m ++ (sp₁ ++ '=' :: (sp₂ ++ (w ++ rest))) := by simp
    obtain ⟨c, w', rfl, hc⟩ := hval.head
    have hvalue := hval.scopeValue (stops_of_endsScopeValue hend)
    rw [List.cons_append] at hvalue
    rw [hsplit, scopePredicate, hm]
    simp only [List.cons_append, skipSpaces_append hsp₁ (show isSpace '=' = false by decide),
      skipSpaces_append hsp₂ hc, hvalue, hend, if_true]

/-- A token is a scope predicate exactly when it is one as written. -/
theorem scopePredicateFull_eq_some_iff {t : Text} {p : ScopePredicate} :
    scopePredicateFull t = some p ↔ Spelled t p := by
  have key : scopePredicateFull t = some p ↔ scopePredicate t = some (p, []) := by
    rw [scopePredicateFull]
    split <;> simp_all
  rw [key, scopePredicate_eq_some_iff]
  constructor
  · rintro ⟨t', ht, hs, -⟩
    rw [List.append_nil] at ht
    exact ht ▸ hs
  · exact fun hs => ⟨t, by simp, hs, rfl⟩

/-! ### Words -/

/-- The text ends or goes on with a delimiter. -/
def EndsWord (rest : Text) : Prop := ∀ c ∈ rest.head?, isDelimiter c = true

theorem word_of_endsWord {rest : Text} (h : EndsWord rest) : word none rest = some ([], rest) := by
  cases rest with
  | nil => rfl
  | cons c rest => rw [word, if_pos (h c rfl)]

theorem word_plain_append {v : Text} (hv : ∀ c ∈ v, isDelimiter c = false ∧ isQuote c = false)
    (rest : Text) : word none (v ++ rest) = (word none rest).map fun m => (v ++ m.1, m.2) := by
  induction v with
  | nil => simp
  | cons c v ih =>
      rw [List.forall_mem_cons] at hv
      rw [List.cons_append, word, if_neg (by simp [hv.1.1]), if_neg (by simp [hv.1.2]), ih hv.2,
        Option.map_map]
      rfl

theorem word_quoted_append {q : Char} {v : Text} (hv : ∀ c ∈ v, c ≠ q ∧ c ≠ '\\') (rest : Text) :
    word (some q) (v ++ q :: rest) = (word none rest).map fun m => (v ++ q :: m.1, m.2) := by
  induction v with
  | nil => exact word_closing q rest
  | cons c v ih =>
      rw [List.forall_mem_cons] at hv
      rw [List.cons_append, word_inside hv.1.1 hv.1.2, ih hv.2, Option.map_map]
      rfl

theorem ScopeValue.word {w v rest : Text} (h : ScopeValue w v) (hrest : EndsWord rest) :
    word none (w ++ rest) = some (w, rest) ∧ literal w = v := by
  cases h with
  | bare hv hc =>
      have hplain : ∀ c ∈ w, isDelimiter c = false ∧ isQuote c = false := fun c hcw =>
        ⟨(isScopeValueChar_plain (hc c hcw)).1, (isScopeValueChar_plain (hc c hcw)).2.1⟩
      refine ⟨by simp [word_plain_append hplain, word_of_endsWord hrest], ?_⟩
      obtain ⟨c, v', rfl⟩ := List.exists_cons_of_ne_nil hv
      rw [literal, if_neg (by simp [(hplain c List.mem_cons_self).2])]
  | @quoted q v hq hv hc =>
      have hdelim : isDelimiter q = false := by
        simp only [isQuote, Bool.or_eq_true, beq_iff_eq] at hq
        rcases hq with rfl | rfl <;> decide
      have hplain : ∀ c ∈ v, c ≠ q ∧ c ≠ '\\' := by
        intro c hcv
        obtain ⟨-, hcq, hcb, -⟩ := isScopeValueChar_plain (hc c hcv)
        exact ⟨fun heq => by simp [heq, hq] at hcq, hcb⟩
      have hsplit : v ++ [q] ++ rest = v ++ q :: rest := by simp
      refine ⟨?_, ?_⟩
      · rw [List.cons_append, Search.word, if_neg (by simp [hdelim]), if_pos hq, hsplit,
          word_quoted_append hplain, word_of_endsWord hrest]
        simp
      · simp [literal, hq]

/-- A quoted literal is skipped as a whole. -/
theorem word_quotedTail {q : Char} {cs t after : Text} (h : quotedTail q cs = some (t, after)) :
    word (some q) cs = (word none after).map fun m => (t ++ m.1, m.2) := by
  fun_induction quotedTail q cs generalizing t after with
  | case1 => simp at h
  | case2 c hc =>
      obtain rfl : c = q := by simpa using hc
      simp only [Option.some.injEq, Prod.mk.injEq] at h
      obtain ⟨rfl, rfl⟩ := h
      exact word_closing c []
  | case3 => simp at h
  | case4 c d cs hc =>
      obtain rfl : c = q := by simpa using hc
      simp only [Option.some.injEq, Prod.mk.injEq] at h
      obtain ⟨rfl, rfl⟩ := h
      exact word_closing c (d :: cs)
  | case5 => simp at h
  | case6 c d cs hc hb hd ih =>
      obtain rfl : c = '\\' := by simpa using hb
      obtain ⟨⟨t', after'⟩, ht, heq⟩ := Option.map_eq_some_iff.mp h
      simp only [Prod.mk.injEq] at heq
      obtain ⟨rfl, rfl⟩ := heq
      rw [word_escape (by simpa using hc), ih ht, Option.map_map]
      rfl
  | case7 c d cs hc hb ih =>
      obtain ⟨⟨t', after'⟩, ht, heq⟩ := Option.map_eq_some_iff.mp h
      simp only [Prod.mk.injEq] at heq
      obtain ⟨rfl, rfl⟩ := heq
      rw [word_inside (by simpa using hc) (by simpa using hb), ih ht, Option.map_map]
      rfl

theorem length_quotedTail {q : Char} {cs t after : Text} (h : quotedTail q cs = some (t, after)) :
    after.length < cs.length := by
  obtain ⟨rfl, hne⟩ := quotedTail_eq_some h
  have := List.length_pos_iff.mpr hne
  rw [List.length_append]
  omega

/-- A search token that runs up to a delimiter is a word. -/
theorem word_of_searchUnits {fuel : Nat} {cs m rest : Text} (hfuel : cs.length ≤ fuel)
    (h : searchUnits fuel cs = (m, rest)) (hrest : EndsWord rest) :
    word none cs = some (m, rest) := by
  induction fuel generalizing cs m with
  | zero =>
      obtain rfl : cs = [] := List.length_eq_zero_iff.mp (Nat.le_zero.mp hfuel)
      simp only [searchUnits, Prod.mk.injEq] at h
      simp [word, ← h.1, ← h.2]
  | succ fuel ih =>
      cases cs with
      | nil =>
          simp only [searchUnits, Prod.mk.injEq] at h
          simp [word, ← h.1, ← h.2]
      | cons c cs =>
          rw [searchUnits] at h
          by_cases hc : isSearchChar c = true
          · rw [if_pos hc] at h
            simp only [Prod.mk.injEq] at h
            obtain ⟨rfl, hr⟩ := h
            have hplain : isDelimiter c = false ∧ isQuote c = false := by
              simp only [isSearchChar, Bool.not_eq_true', Bool.or_eq_false_iff] at hc
              simp [isDelimiter, isQuote, hc]
            have ih := ih (by simpa using hfuel) (Prod.ext rfl hr)
            rw [word, if_neg (by simp [hplain.1]), if_neg (by simp [hplain.2]), ih]
            rfl
          · rw [if_neg hc] at h
            cases hq : quotedToken (c :: cs) with
            | none =>
                simp only [hq, Prod.mk.injEq] at h
                obtain ⟨rfl, rfl⟩ := h
                exact word_of_endsWord hrest
            | some p =>
                obtain ⟨lit, after⟩ := p
                simp only [hq, Prod.mk.injEq] at h
                obtain ⟨rfl, hr⟩ := h
                rw [quotedToken] at hq
                split at hq
                · rename_i hquote
                  obtain ⟨⟨t, after'⟩, ht, heq⟩ := Option.map_eq_some_iff.mp hq
                  simp only [Prod.mk.injEq] at heq
                  obtain ⟨rfl, rfl⟩ := heq
                  have hlen := length_quotedTail ht
                  have hdelim : isDelimiter c = false := by
                    simp only [Bool.or_eq_true, beq_iff_eq] at hquote
                    rcases hquote with rfl | rfl <;> decide
                  have hword := ih (by simp only [List.length_cons] at hfuel; omega) (Prod.ext rfl hr)
                  rw [word, if_neg (by simp [hdelim]), if_pos (by simpa [isQuote] using hquote),
                    word_quotedTail ht, hword]
                  simp
                · simp at hq

end ThreatHunting.Spl
