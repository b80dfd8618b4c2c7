import ThreatHunting.Spl.Spelling

/-!
# ThreatHunting.Spl.Reading

The policy reads a search expression as Splunk does. Two passes of the policy look
at its text: `_scope_values` searches it for scope fields, and `_source_branches`
cuts it into tokens. Where the first accepts every occurrence it finds, the tokens
of the second are the lexemes of the expression — as long as the scope fields are
spelled in ASCII, which is where the patterns and Splunk can disagree.
-/

namespace ThreatHunting.Spl

open Scan Search

variable (db : UnicodeData)

/-! ### Tokens -/

/-- The lexeme a token of the policy stands for. -/
def tokenLexeme (t : Text) : Lexeme :=
  if t = "(".toList then .opening
  else if t = ")".toList then .closing
  else match scopePredicateFull t with
    | some p => .equality p.equality
    | none => wordLexeme t

/-- Every token that is a scope predicate names its field in ASCII. -/
def AsciiScope (expression : Text) : Prop :=
  ∀ tokens ∈ (sourceTokens expression).toOption,
    ∀ t ∈ tokens, ∀ p ∈ scopePredicateFull t, ∀ c ∈ p.field, isAscii c = true

instance (expression : Text) : Decidable (AsciiScope expression) := by
  unfold AsciiScope
  infer_instance

/-- `_scope_values` objects to no occurrence of either scope field. -/
def ExactScope (expression : Text) : Prop :=
  ∀ f : SourceField, (scope_values db expression f.name).2 = false

/-- A place where a token may begin: a scope field there is not part of a longer name. -/
def TokenPlace (expression cs : Text) : Prop :=
  ∃ pre, expression = pre ++ cs ∧
    (scopeFieldName cs = none ∨ ∀ c ∈ pre.getLast?, isWordIgnoreCase c = false)

section Place

variable {db} {expression : Text}

theorem TokenPlace.start : TokenPlace expression expression := ⟨[], rfl, .inr (by simp)⟩

theorem TokenPlace.after_char {c : Char} {cs : Text} (h : TokenPlace expression (c :: cs))
    (hc : isWordIgnoreCase c = false) : TokenPlace expression cs := by
  obtain ⟨pre, rfl, -⟩ := h
  exact ⟨pre ++ [c], by simp, .inr (by simp [hc])⟩

theorem TokenPlace.after_token {t rest : Text} (h : TokenPlace expression (t ++ rest))
    (hrest : scopeFieldName rest = none) : TokenPlace expression rest := by
  obtain ⟨pre, rfl, -⟩ := h
  exact ⟨pre ++ t, by simp, .inl hrest⟩

/-- An accepted expression has a predicate wherever a scope field is written. -/
theorem ExactScope.predicate (hexact : ExactScope db expression) {m r : Text} {f : SourceField}
    (hplace : TokenPlace expression (m ++ r)) (hm : m.map asciiLower = f.name)
    (hend : atWordEnd db r = true) :
    ∃ p rest, scopePredicate (m ++ r) = some (p, rest) ∧
      p.selected ∈ (scope_values db expression f.name).1 := by
  have hfield : scopeFieldName (m ++ r) = some (m, r) := scopeFieldName_of_map_asciiLower hm r
  have hfold : casefold m = f.name := by
    rw [casefold_of_isAscii (isAscii_of_map_asciiLower hm), hm]
  obtain ⟨pre, rfl, hprev⟩ := hplace
  have hprev : ∀ c ∈ pre.getLast?, isWordIgnoreCase c = false := by
    rcases hprev with hnone | hprev
    · rw [hfield] at hnone
      simp at hnone
    · exact hprev
  obtain ⟨c, cs, hcs⟩ : ∃ c cs, m ++ r = c :: cs := by
    cases m with
    | nil => exact absurd hm (by cases f <;> decide)
    | cons c m => exact ⟨c, m ++ r, rfl⟩
  have hscope : scopeField db pre.getLast? (m ++ r) = some (m, r) := by
    rw [scopeField, if_neg, hfield, Option.filter_some, if_pos hend]
    rw [Option.any_eq_true]
    rintro ⟨d, hd, hword⟩
    rw [hprev d hd] at hword
    exact absurd hword (by simp)
  have hocc : (m, (scopePredicate (m ++ r)).map Prod.fst) ∈ scopeOccurrences db (pre ++ (m ++ r)) := by
    rw [scopeOccurrences, hcs]
    refine mem_findAll ?_
    rw [← hcs, hscope]
    rfl
  -- the occurrence is one of those `_scope_values` looks at
  have hmem : (m, (scopePredicate (m ++ r)).map Prod.fst)
      ∈ (scopeOccurrences db (pre ++ (m ++ r))).filter fun o => casefold o.1 == f.name :=
    List.mem_filter.mpr ⟨hocc, by simp [hfold]⟩
  have hvalid := hexact f
  rw [scope_values] at hvalid ⊢
  simp only [Bool.or_eq_false_iff] at hvalid
  have hsome := List.any_eq_false.mp hvalid.2 _ hmem
  cases hp : scopePredicate (m ++ r) with
  | none => simp [hp] at hsome
  | some q =>
      obtain ⟨p, rest⟩ := q
      refine ⟨p, rest, rfl, ?_⟩
      rw [hp] at hmem
      exact List.mem_dedup.mpr (List.mem_filterMap.mpr ⟨_, hmem, rfl⟩)


/-- The separators a source equality may have before its `=` end a field name. -/
theorem atWordEnd_of_skipSpaces {r rest : Text} (h : skipSpaces r = '=' :: rest) :
    atWordEnd db r = true := by
  cases r with
  | nil => rfl
  | cons c r =>
      rw [atWordEnd, Bool.not_eq_true']
      by_cases hc : isSpace c = true
      · rw [UnicodeData.isWord]
        split
        · exact of_isSpace (fun d => isAsciiWord d = false) (by decide) hc
        · exact db.word_of_isSpace c hc
      · rw [skipSpaces, List.dropWhile_cons_of_neg hc, List.cons_eq_cons] at h
        rw [h.1]
        rfl

/-- A source equality at a place is one the policy recognises there. -/
theorem ExactScope.equalityOf (hexact : ExactScope db expression) {cs : Text} {f : SourceField}
    (hplace : TokenPlace expression cs) (hnone : scopePredicate cs = none) :
    equalityOf f cs = none := by
  rw [Search.equalityOf]
  cases hm : fieldNamed f cs with
  | none => rfl
  | some r =>
      obtain ⟨m, rfl, hlower⟩ := fieldNamed_eq_some_iff.mp hm
      rw [Option.bind_some]
      split
      · rename_i rest hr
        obtain ⟨p, rest, hp, -⟩ := hexact.predicate hplace hlower (atWordEnd_of_skipSpaces hr)
        rw [hnone] at hp
        simp at hp
      · rfl

/-- What a predicate says when its field is spelled in ASCII. -/
theorem Spelled.exists_field {t : Text} {p : ScopePredicate} (h : Spelled t p)
    (hascii : ∀ c ∈ p.field, isAscii c = true) :
    ∃ r rest, t = p.field ++ r ∧ skipSpaces r = '=' :: rest ∧
      p.field.map asciiLower = p.sourceField.name := by
  obtain @⟨m, sp₁, sp₂, w, v, hm, hsp₁, hsp₂, hval⟩ := h
  obtain ⟨f, hlower, hfold⟩ := exists_field_of_isAscii (hm []) hascii
  refine ⟨_, _, rfl, skipSpaces_append hsp₁ (by decide), ?_⟩
  have hf : ScopePredicate.sourceField ⟨m, v⟩ = f := ScopePredicate.sourceField_eq hfold
  rw [hf]
  exact hlower

theorem Spelled.equalityOf {t rest : Text} {p : ScopePredicate} (h : Spelled t p)
    (hascii : ∀ c ∈ p.field, isAscii c = true) (hrest : EndsWord rest) :
    equalityOf p.sourceField (t ++ rest) = some (p.equality, rest) := by
  obtain ⟨-, -, -, -, hlower⟩ := h.exists_field hascii
  obtain @⟨m, sp₁, sp₂, w, v, hm, hsp₁, hsp₂, hval⟩ := h
  obtain ⟨hword, hlit⟩ := hval.word hrest
  obtain ⟨c, w', rfl, hc⟩ := hval.head
  have hsplit : m ++ (sp₁ ++ '=' :: (sp₂ ++ c :: w')) ++ rest
      = m ++ (sp₁ ++ '=' :: (sp₂ ++ c :: (w' ++ rest))) := by simp
  have hfield : fieldNamed (ScopePredicate.sourceField ⟨m, v⟩)
      (m ++ (sp₁ ++ '=' :: (sp₂ ++ c :: (w' ++ rest)))) = some _ :=
    fieldNamed_eq_some_iff.mpr ⟨m, rfl, hlower⟩
  rw [List.cons_append] at hword
  rw [hsplit, Search.equalityOf, hfield, Option.bind_some,
    skipSpaces_append hsp₁ (show isSpace '=' = false by decide)]
  simp only [skipSpaces_append hsp₂ hc, hword, hlit]
  rfl


theorem endsWord_of_endsScopeValue {rest : Text} (h : endsScopeValue rest = true)
    (hpipe : '|' ∉ rest) : EndsWord rest := by
  cases rest with
  | nil => simp [EndsWord]
  | cons c rest =>
      simp only [List.mem_cons, not_or] at hpipe
      simp only [endsScopeValue, Bool.or_eq_true, beq_iff_eq] at h
      intro d hd
      obtain rfl : c = d := by simpa using hd
      rcases h with (h | h) | h
      · simp [isDelimiter, h]
      · exact absurd h.symm hpipe.1
      · simp [isDelimiter, h]

theorem scopeFieldName_of_endsWord {rest : Text} (h : EndsWord rest) :
    scopeFieldName rest = none := by
  cases rest with
  | nil => rfl
  | cons c rest =>
      have hc := h c rfl
      have hne : matchesIgnoreCase 'i' c = false ∧ matchesIgnoreCase 's' c = false := by
        simp only [isDelimiter, Bool.or_eq_true, beq_iff_eq] at hc
        rcases hc with (hc | rfl) | rfl
        · exact of_isSpace (fun d => matchesIgnoreCase 'i' d = false ∧
            matchesIgnoreCase 's' d = false) (by decide) hc
        · decide
        · decide
      have hi : "index".toList = 'i' :: "ndex".toList := by decide
      have hs : "sourcetype".toList = 's' :: "ourcetype".toList := by decide
      rw [scopeFieldName, hi, hs, takeKeyword, takeKeyword, if_neg (by simp [hne]),
        if_neg (by simp [hne])]
      rfl

theorem isWordIgnoreCase_of_isDelimiter {c : Char} (h : isDelimiter c = true) :
    isWordIgnoreCase c = false := by
  simp only [isDelimiter, Bool.or_eq_true, beq_iff_eq] at h
  rcases h with (h | rfl) | rfl
  · exact of_isSpace (fun d => isWordIgnoreCase d = false) (by decide) h
  · decide
  · decide

/-- Reading goes on after a search token only at a delimiter. -/
theorem endsWord_of_searchUnits {fuel : Nat} {cs m rest : Text} {ts : List Text}
    (hfuel : cs.length ≤ fuel) (h : searchUnits fuel cs = (m, rest))
    (hrest : Reads isSpace sourceToken rest ts) : EndsWord rest := by
  have hstop : ∀ c cs', rest = c :: cs' → isSearchChar c = false ∧ quotedToken rest = none := by
    clear hrest
    fun_induction searchUnits fuel cs generalizing m with
    | case1 cs =>
        obtain rfl : cs = [] := List.length_eq_zero_iff.mp (Nat.le_zero.mp hfuel)
        simp_all
    | case2 => simp_all
    | case3 fuel c cs hc m' rest' heq ih =>
        simp only [Prod.mk.injEq] at h
        obtain ⟨-, rfl⟩ := h
        exact ih (by simpa using hfuel) heq
    | case4 fuel c cs hc hq =>
        simp only [Prod.mk.injEq] at h
        obtain ⟨-, rfl⟩ := h
        intro d cs' hd
        simp only [List.cons.injEq] at hd
        exact ⟨by simpa [hd.1] using hc, hq⟩
    | case5 fuel c cs hc lit after hq m' rest' heq ih =>
        simp only [Prod.mk.injEq] at h
        obtain ⟨-, rfl⟩ := h
        refine ih ?_ heq
        rw [quotedToken] at hq
        split at hq
        · obtain ⟨⟨t, after'⟩, ht, hp⟩ := Option.map_eq_some_iff.mp hq
          have := length_quotedTail ht
          simp only [Prod.mk.injEq] at hp
          simp only [List.length_cons, ← hp.2] at *
          omega
        · simp at hq
  intro c hc
  cases rest with
  | nil => simp at hc
  | cons d rest =>
      obtain rfl : d = c := by simpa using hc
      obtain ⟨hd, hq⟩ := hstop d rest rfl
      by_contra hdelim
      have hdelim : isDelimiter d = false := by simpa using hdelim
      simp only [isDelimiter, Bool.or_eq_false_iff, beq_eq_false_iff_ne] at hdelim
      -- only an unclosed quote stops a search token elsewhere, and it begins no token
      have hnext : sourceToken (d :: rest) = none := by
        have hquote : d = '"' ∨ d = '\'' := by
          simp only [isSearchChar, hdelim, Bool.not_eq_false', Bool.or_eq_true, beq_iff_eq] at hd
          tauto
        have hpred : scopePredicate (d :: rest) = none := by
          rcases hquote with rfl | rfl <;> rfl
        rw [sourceToken, hpred]
        simp [searchToken, hdelim, searchUnits, hd, hq]
      cases hrest with
      | skip hs => simp [hdelim] at hs
      | token _ ht =>
          rw [hnext] at ht
          simp at ht

/-- The lexeme of a predicate token. -/
theorem tokenLexeme_of_spelled {t : Text} {p : ScopePredicate} (h : Spelled t p) :
    tokenLexeme t = .equality p.equality := by
  have hfull := scopePredicateFull_eq_some_iff.mpr h
  have hne : ∀ w ∈ ["(".toList, ")".toList], t ≠ w := by
    intro w hw heq
    have : ∀ w ∈ ["(".toList, ")".toList], scopePredicateFull w = none := by decide
    rw [heq, this w hw] at hfull
    simp at hfull
  simp only [List.mem_cons, List.not_mem_nil, or_false, forall_eq_or_imp, forall_eq] at hne
  rw [tokenLexeme, if_neg hne.1, if_neg hne.2, hfull]

/-- The reader of lexemes finds the equality a predicate token states. -/
theorem Spelled.nextLexeme {t rest : Text} {p : ScopePredicate} (h : Spelled t p)
    (hascii : ∀ c ∈ p.field, isAscii c = true) (hrest : EndsWord rest) :
    nextLexeme (t ++ rest) = some (.equality p.equality, rest) := by
  have heq := h.equalityOf hascii hrest
  obtain ⟨r, rest', rfl, -, hlower⟩ := h.exists_field hascii
  cases hm : p.field with
  | nil =>
      rw [hm] at hlower
      exact absurd hlower.symm (by cases p.sourceField <;> decide)
  | cons c m =>
      have hasc : isAscii c = true := hascii c (by simp [hm])
      have hmem : asciiLower c ∈ p.sourceField.name := by
        rw [← hlower, hm]
        exact List.mem_map_of_mem List.mem_cons_self
      have hne : c ≠ '(' ∧ c ≠ ')' := by
        constructor <;> rintro rfl <;> revert hmem <;> cases p.sourceField <;> decide
      rw [hm] at heq
      simp only [List.cons_append] at heq ⊢
      rw [Search.nextLexeme, if_neg (by simp [hne.1]), if_neg (by simp [hne.2])]
      cases hf : p.sourceField with
      | index =>
          rw [hf] at heq
          rw [heq]
          rfl
      | sourcetype =>
          -- a text that names `sourcetype` does not name `index`
          have hindex : fieldNamed .index (c :: (m ++ r ++ rest)) = none := by
            cases hi : fieldNamed .index (c :: (m ++ r ++ rest)) with
            | none => rfl
            | some r' =>
                obtain ⟨m', hcs, hm'⟩ := fieldNamed_eq_some_iff.mp hi
                rw [hm, hf] at hlower
                have hkey := takeKeyword_index_of_sourcetype hlower (r ++ rest)
                have hkey' := takeKeyword_of_map_asciiLower hm' r'
                rw [← hcs] at hkey'
                simp only [List.cons_append, List.append_assoc] at hkey hkey'
                rw [show SourceField.index.name = "index".toList from rfl, hkey] at hkey'
                simp at hkey'
          rw [hf] at heq
          rw [show Search.equalityOf .index (c :: (m ++ r ++ rest)) = none by
            rw [Search.equalityOf, hindex]; rfl, heq]
          rfl

/-- One token of the policy is one lexeme of the expression. -/
theorem ExactScope.nextLexeme (hexact : ExactScope db expression) (hpipe : '|' ∉ expression)
    {c : Char} {cs t rest : Text} {ts : List Text} (hplace : TokenPlace expression (c :: cs))
    (hskip : isSpace c = false) (ht : sourceToken (c :: cs) = some (t, rest))
    (hrest : Reads isSpace sourceToken rest ts)
    (hascii : ∀ p, scopePredicateFull t = some p → ∀ c ∈ p.field, isAscii c = true) :
    nextLexeme (c :: cs) = some (tokenLexeme t, rest) ∧
      (∀ p, scopePredicateFull t = some p →
        p.selected ∈ (scope_values db expression p.sourceField.name).1) ∧
      TokenPlace expression rest := by
  cases hp : scopePredicate (c :: cs) with
  | some m =>
      obtain ⟨p, rest'⟩ := m
      obtain ⟨t', hcs, hspelled, hend⟩ := scopePredicate_eq_some_iff.mp hp
      simp only [sourceToken, hp, Option.some.injEq, Prod.mk.injEq] at ht
      obtain ⟨hlen, rfl⟩ := ht
      obtain rfl : t' = t := by rw [← hlen, hcs]; simp
      have hfull := scopePredicateFull_eq_some_iff.mpr hspelled
      have hasc := hascii p hfull
      have hrest' : EndsWord rest' := by
        refine endsWord_of_endsScopeValue hend ?_
        obtain ⟨pre, rfl, -⟩ := hplace
        rw [hcs] at hpipe
        exact fun h => hpipe (by simp [h])
      rw [hcs] at hplace ⊢
      refine ⟨?_, ?_, hplace.after_token (scopeFieldName_of_endsWord hrest')⟩
      · rw [tokenLexeme_of_spelled hspelled]
        exact hspelled.nextLexeme hasc hrest'
      · intro p' hp'
        obtain rfl : p = p' := by rw [hfull] at hp'; simpa using hp'
        obtain ⟨r, rest₂, rfl, hr, hlower⟩ := hspelled.exists_field hasc
        have hr' : skipSpaces (r ++ rest') = '=' :: (rest₂ ++ rest') := by
          obtain ⟨sp, rfl, hsp, hc⟩ := skipSpaces_eq_cons hr
          rw [List.append_assoc, List.cons_append]
          exact skipSpaces_append hsp hc
        rw [List.append_assoc] at hplace hcs
        obtain ⟨q, rest₃, hq, hmem⟩ := hexact.predicate hplace hlower (atWordEnd_of_skipSpaces hr')
        rw [← hcs, hp, Option.some.injEq, Prod.mk.injEq] at hq
        rw [hq.1]
        rw [hq.1] at hmem
        exact hmem
  | none =>
      rw [sourceToken, hp] at ht
      simp only [searchToken] at ht
      split at ht
      · -- a parenthesis
        rename_i hc
        simp only [Option.some.injEq, Prod.mk.injEq] at ht
        obtain ⟨rfl, rfl⟩ := ht
        have hword : isWordIgnoreCase c = false := by
          simp only [Bool.or_eq_true, beq_iff_eq] at hc
          rcases hc with rfl | rfl <;> decide
        refine ⟨?_, ?_, hplace.after_char hword⟩
        · simp only [Bool.or_eq_true, beq_iff_eq] at hc
          rcases hc with rfl | rfl <;> rfl
        · have hnone : ∀ d ∈ ['(', ')'], scopePredicateFull [d] = none := by decide
          intro p hfull
          rw [hnone c (by simpa using hc)] at hfull
          simp at hfull
      · rename_i hc
        simp only [Bool.or_eq_true, beq_iff_eq, not_or] at hc
        split at ht
        · simp at ht
        · rename_i m rest' hne hm
          simp only [Option.some.injEq, Prod.mk.injEq] at ht
          obtain ⟨rfl, rfl⟩ := ht
          have hends := endsWord_of_searchUnits (Nat.le_refl _) hm hrest
          have hword := word_of_searchUnits (Nat.le_refl _) hm hends
          have hcs := word_append hword
          have hfull : scopePredicateFull m = none := by
            cases hf : scopePredicateFull m with
            | none => rfl
            | some p =>
                have hspelled := scopePredicateFull_eq_some_iff.mp hf
                have heq := hspelled.equalityOf (hascii p hf) hends
                rw [← hcs, hexact.equalityOf hplace hp] at heq
                simp at heq
          cases m with
          | nil => simp at hne
          | cons d m =>
              obtain rfl : c = d := (List.cons_eq_cons.mp hcs).1
              refine ⟨?_, by simp [hfull], ?_⟩
              · rw [Search.nextLexeme, if_neg (by simp [hc.1]), if_neg (by simp [hc.2]),
                  hexact.equalityOf hplace hp, hexact.equalityOf hplace hp]
                have hne : c :: m ≠ "(".toList ∧ c :: m ≠ ")".toList := by
                  have h₁ : "(".toList = ['('] := by decide
                  have h₂ : ")".toList = [')'] := by decide
                  simp [h₁, h₂, hc]
                rw [tokenLexeme, if_neg hne.1, if_neg hne.2, hfull]
                simp [hword]
              · rw [hcs] at hplace
                exact hplace.after_token (scopeFieldName_of_endsWord hends)

/-- **The policy reads the expression as Splunk does**: its tokens are the lexemes,
and every literal it takes for a source was seen by `_scope_values`. -/
theorem ExactScope.lex (hexact : ExactScope db expression) (hpipe : '|' ∉ expression)
    (hascii : AsciiScope expression) {tokens : List Text}
    (htokens : sourceTokens expression = .ok tokens) :
    Search.lex expression = some (tokens.map tokenLexeme) ∧
      ∀ t ∈ tokens, ∀ p, scopePredicateFull t = some p →
        p.selected ∈ (scope_values db expression p.sourceField.name).1 := by
  have hreads : Reads isSpace sourceToken expression tokens := by
    rw [sourceTokens] at htokens
    split at htokens
    · simp at htokens
    · rename_i ts hts
      split at htokens
      · simp at htokens
      · simp only [Except.ok.injEq] at htokens
        exact htokens ▸ reads_of_tokens hts
  have hfollow := Reads.follow (TokenPlace expression)
    (fun t => ∀ p, scopePredicateFull t = some p → ∀ c ∈ p.field, isAscii c = true)
    (fun t => ∀ p, scopePredicateFull t = some p →
      p.selected ∈ (scope_values db expression p.sourceField.name).1)
    (fun c cs hp hc => hp.after_char (of_isSpace (fun d => isWordIgnoreCase d = false)
      (by decide) hc))
    (fun c cs t rest ts hp hc ht hr ha => hexact.nextLexeme hpipe hp hc ht hr ha)
    hreads (hascii tokens (by rw [htokens]; rfl)) .start
  exact ⟨(tokens_eq_some_iff Search.consuming_nextLexeme).mpr hfollow.1, hfollow.2⟩

end Place

end ThreatHunting.Spl
