import ThreatHunting.Spl.Reading
import ThreatHunting.Spl.Policy
import ThreatHunting.Lib.Fallible

/-!
# ThreatHunting.Spl.Scope

The source branches of the policy are exact. `sourceBounds` makes its branches a
domain of constraints on events; the recursive descent of `_source_branches` follows
the grammar of `ThreatHunting.Spl.Search`, and the branches it returns cover the
formula it reads. What an allowed query can reach is then what its branches say.
-/

namespace ThreatHunting.Spl

open Search Fallible SPLPolicy

/-! ### Branches as bounds -/

/-- A branch bounds an event by the values it fixes. -/
def Branch.Models (b : Branch) (e : Event) : Prop :=
  (∀ i ∈ b.1, e.index = i) ∧ ∀ s ∈ b.2, e.sourcetype = s

theorem fieldMeets {left right : Option Text} {value : Text} :
    ((left.isSome && right.isSome && left != right) = false ∧
      ∀ x ∈ left.or right, value = x) ↔ (∀ x ∈ left, value = x) ∧ ∀ x ∈ right, value = x := by
  cases left with
  | none => simp
  | some l =>
      cases right with
      | none => simp
      | some r =>
          simp only [Option.isSome_some, Bool.and_self, Bool.true_and, bne_eq_false_iff_eq,
            Option.some.injEq, Option.some_or, Option.mem_def, forall_eq']
          constructor
          · rintro ⟨rfl, rfl⟩
            exact ⟨rfl, rfl⟩
          · rintro ⟨rfl, rfl⟩
            exact ⟨rfl, rfl⟩

/-- The branches of the policy are constraints on events. -/
def sourceBounds : Constraints Branch Event where
  models := Branch.Models
  top := (none, none)
  meet := meetBranch
  models_top := by simp [Branch.Models]
  models_meet := by
    intro l r e
    have hi := @fieldMeets l.1 r.1 e.index
    have hs := @fieldMeets l.2 r.2 e.sourcetype
    rw [meetBranch]
    split
    · rename_i hc
      rw [Bool.or_eq_true] at hc
      simp only [Option.mem_def, reduceCtorEq, false_and, exists_false, false_iff]
      rintro ⟨hl, hr⟩
      have h₁ := (hi.mpr ⟨hl.1, hr.1⟩).1
      have h₂ := (hs.mpr ⟨hl.2, hr.2⟩).1
      rcases hc with hc | hc
      · rw [h₁] at hc
        exact absurd hc (by simp)
      · rw [h₂] at hc
        exact absurd hc (by simp)
    · rename_i hc
      simp only [Bool.or_eq_true, not_or, Bool.not_eq_true] at hc
      simp only [Option.mem_some, exists_eq_left']
      constructor
      · intro h
        have h₁ := hi.mp ⟨hc.1, h.1⟩
        have h₂ := hs.mp ⟨hc.2, h.2⟩
        exact ⟨⟨h₁.1, h₂.1⟩, ⟨h₁.2, h₂.2⟩⟩
      · intro h
        exact ⟨(hi.mpr ⟨h.1.1, h.2.1⟩).2, (hs.mpr ⟨h.1.2, h.2.2⟩).2⟩

/-- The branches are those of the formula: they cover it, and fix no value that the
formula does not name. -/
structure BranchesOf (branches : List Branch) (f : Formula Equality) : Prop where
  covers : sourceBounds.Covers Event.satisfies branches f
  index_mem : ∀ b ∈ branches, ∀ i ∈ b.1, ⟨.index, i⟩ ∈ f.atoms
  sourcetype_mem : ∀ b ∈ branches, ∀ s ∈ b.2, ⟨.sourcetype, s⟩ ∈ f.atoms

/-- A formula that names no source leaves both fields open. -/
theorem BranchesOf.unbounded {f : Formula Equality} (h : f.atoms = []) :
    BranchesOf [(none, none)] f where
  covers := Constraints.covers_top fun _ => Formula.attains_of_atoms_eq_nil h true
  index_mem := by simp
  sourcetype_mem := by simp

theorem BranchesOf.predicate (p : ScopePredicate) :
    BranchesOf [predicateBranch p] (.atom p.equality) := by
  rw [predicateBranch, ScopePredicate.equality, ScopePredicate.sourceField]
  split
  · exact ⟨Constraints.covers_atom fun e => by
      simp [sourceBounds, Branch.Models, Event.satisfies, Event.value],
      by simp [Formula.atoms], by simp⟩
  · exact ⟨Constraints.covers_atom fun e => by
      simp [sourceBounds, Branch.Models, Event.satisfies, Event.value],
      by simp, by simp [Formula.atoms]⟩

theorem BranchesOf.unite {left right united : List Branch} {f g : Formula Equality}
    (hf : BranchesOf left f) (hg : BranchesOf right g)
    (h : uniteBranches left right = .ok united) : BranchesOf united (f.or g) := by
  have hmem : ∀ b, b ∈ united ↔ b ∈ left ∨ b ∈ right := by
    rw [uniteBranches] at h
    split at h
    · simp at h
    · simp only [Except.ok.injEq] at h
      intro b
      rw [← h, List.mem_union_iff]
  refine ⟨hf.covers.or hg.covers hmem, ?_, ?_⟩
  · intro b hb i hi
    rcases (hmem b).mp hb with hb | hb
    · exact List.mem_append_left _ (hf.index_mem b hb i hi)
    · exact List.mem_append_right _ (hg.index_mem b hb i hi)
  · intro b hb i hi
    rcases (hmem b).mp hb with hb | hb
    · exact List.mem_append_left _ (hf.sourcetype_mem b hb i hi)
    · exact List.mem_append_right _ (hg.sourcetype_mem b hb i hi)

theorem meetBranch_eq_some {l r m : Branch} (h : meetBranch l r = some m) :
    m = (l.1.or r.1, l.2.or r.2) := by
  rw [meetBranch] at h
  split at h
  · simp at h
  · exact (Option.some.inj h).symm

theorem BranchesOf.combine {left right combined : List Branch} {f g : Formula Equality}
    (hf : BranchesOf left f) (hg : BranchesOf right g)
    (h : combineBranches left right = .ok combined) : BranchesOf combined (f.and g) := by
  have hmem : ∀ b, b ∈ combined ↔ ∃ l ∈ left, ∃ r ∈ right, b ∈ meetBranch l r := by
    rw [combineBranches] at h
    split at h
    · simp at h
    · simp only [Except.ok.injEq] at h
      intro b
      simp [← h, List.mem_flatMap, List.mem_filterMap]
  refine ⟨hf.covers.and hg.covers hmem, ?_, ?_⟩
  · intro b hb i hi
    obtain ⟨l, hl, r, hr, hm⟩ := (hmem b).mp hb
    rw [meetBranch_eq_some hm] at hi
    rcases Option.or_eq_some_iff.mp hi with hi | ⟨-, hi⟩
    · exact List.mem_append_left _ (hf.index_mem l hl i hi)
    · exact List.mem_append_right _ (hg.index_mem r hr i hi)
  · intro b hb i hi
    obtain ⟨l, hl, r, hr, hm⟩ := (hmem b).mp hb
    rw [meetBranch_eq_some hm] at hi
    rcases Option.or_eq_some_iff.mp hi with hi | ⟨-, hi⟩
    · exact List.mem_append_left _ (hf.sourcetype_mem l hl i hi)
    · exact List.mem_append_right _ (hg.sourcetype_mem r hr i hi)

/-! ### Tokens of the descent -/

/-- The tokens the descent compares with. -/
def operatorTokens : List Text := ["(", ")", "AND", "OR", "NOT", "XOR"].map String.toList

/-- What a token is to the descent, and to the grammar. -/
inductive TokenView : Text → Lexeme → Prop
  | opening : TokenView "(".toList .opening
  | closing : TokenView ")".toList .closing
  | and : TokenView "AND".toList .and
  | or : TokenView "OR".toList .or
  | not : TokenView "NOT".toList .not
  | xor : TokenView "XOR".toList .xor
  | predicate {t p} : t ∉ operatorTokens → scopePredicateFull t = some p →
      TokenView t (.equality p.equality)
  | term {t} : t ∉ operatorTokens → scopePredicateFull t = none → TokenView t (.term t)

theorem tokenView (t : Text) : TokenView t (tokenLexeme t) := by
  by_cases ht : t ∈ operatorTokens
  · have hall : t = "(".toList ∨ t = ")".toList ∨ t = "AND".toList ∨ t = "OR".toList ∨
        t = "NOT".toList ∨ t = "XOR".toList := by
      simpa [operatorTokens] using ht
    rcases hall with rfl | rfl | rfl | rfl | rfl | rfl
    · exact .opening
    · exact .closing
    · exact .and
    · exact .or
    · exact .not
    · exact .xor
  · have hne := ht
    simp only [operatorTokens, List.map_cons, List.map_nil, List.mem_cons, List.not_mem_nil, or_false,
      not_or] at hne
    obtain ⟨h₁, h₂, h₃, h₄, h₅, h₆⟩ := hne
    rw [tokenLexeme, if_neg h₁, if_neg h₂]
    cases hp : scopePredicateFull t with
    | some p => exact .predicate ht hp
    | none =>
        rw [wordLexeme, if_neg h₃, if_neg h₄, if_neg h₅, if_neg h₆]
        exact .term ht hp

theorem tokenLexeme_of_term {t : Text} (ht : t ∉ operatorTokens)
    (hp : scopePredicateFull t = none) : tokenLexeme t = .term t := by
  have hv := tokenView t
  generalize hl : tokenLexeme t = l at hv
  cases hv with
  | predicate _ hp' => simp [hp] at hp'
  | term => rfl
  | _ => exact absurd ht (by decide)

theorem predicate_of_tokenLexeme {t : Text} {q : Equality} (h : tokenLexeme t = .equality q) :
    ∃ p, scopePredicateFull t = some p ∧ p.equality = q := by
  have hv := tokenView t
  rw [h] at hv
  cases hv with
  | predicate _ hp => exact ⟨_, hp, rfl⟩

section Atom

variable {levels : Nat} {t : Text} {rest : List Text}

theorem atom_term (ht : t ∉ operatorTokens) (hp : scopePredicateFull t = none) :
    atom (levels + 1) (t :: rest) = .ok ([(none, none)], rest) := by
  simp only [operatorTokens, List.map_cons, List.map_nil, List.mem_cons, List.not_mem_nil, or_false,
    not_or] at ht
  obtain ⟨h₁, h₂, h₃, h₄, h₅, h₆⟩ := ht
  rw [atom, if_neg h₅, if_neg h₁, if_neg (by simp only [h₂, h₃, h₄, h₆, decide_false, Bool.or_self, Bool.false_eq_true,
    not_false_eq_true]), hp]

theorem atom_predicate {p : ScopePredicate} (ht : t ∉ operatorTokens)
    (hp : scopePredicateFull t = some p) :
    atom (levels + 1) (t :: rest) = .ok ([predicateBranch p], rest) := by
  simp only [operatorTokens, List.map_cons, List.map_nil, List.mem_cons, List.not_mem_nil, or_false,
    not_or] at ht
  obtain ⟨h₁, h₂, h₃, h₄, h₅, h₆⟩ := ht
  rw [atom, if_neg h₅, if_neg h₁, if_neg (by simp only [h₂, h₃, h₄, h₆, decide_false, Bool.or_self, Bool.false_eq_true,
    not_false_eq_true]), hp]

/-- A token that begins no operand is refused. -/
theorem atom_operator (ht : t ∈ ["AND".toList, "OR".toList, "XOR".toList, ")".toList])
    {r : List Branch × List Text} : atom (levels + 1) (t :: rest) ≠ .ok r := by
  have hne : t ≠ "NOT".toList ∧ t ≠ "(".toList := by
    have : ∀ t ∈ ["AND".toList, "OR".toList, "XOR".toList, ")".toList],
        t ≠ "NOT".toList ∧ t ≠ "(".toList := by decide
    exact this t ht
  have hop : (t = "AND".toList || t = "OR".toList || t = "XOR".toList || t = ")".toList) = true := by
    simpa [or_assoc] using ht
  rw [atom, if_neg hne.1, if_neg hne.2, if_pos hop]
  simp [branchError]

/-- `NOT` takes one operand, which may not name a source. -/
theorem atom_not {bs : List Branch} {after : List Text}
    (h : atom (levels + 1) ("NOT".toList :: rest) = .ok (bs, after)) :
    bs = [(none, none)] ∧ ∃ bs', atom levels rest = .ok (bs', after) ∧
      ∀ t ∈ rest.take (rest.length - after.length), scopePredicateFull t = none := by
  rw [atom, if_pos rfl] at h
  obtain ⟨⟨bs', after'⟩, hatom, h⟩ := bind_eq_ok.mp h
  simp only at h
  split at h
  · simp [branchError] at h
  · rename_i hany
    simp only [Except.ok.injEq, Prod.mk.injEq] at h
    obtain ⟨rfl, rfl⟩ := h
    refine ⟨rfl, bs', hatom, ?_⟩
    intro t ht
    simp only [List.any_eq_true, not_exists, not_and] at hany
    simpa using hany t ht

/-- A parenthesis takes everything up to the one that closes it. -/
theorem atom_opening {bs : List Branch} {after : List Text}
    (h : atom (levels + 1) ("(".toList :: rest) = .ok (bs, after)) :
    conjunction (atom levels) rest = .ok (bs, ")".toList :: after) := by
  rw [atom, if_neg (by decide), if_pos rfl] at h
  obtain ⟨⟨bs', after'⟩, hconj, h⟩ := bind_eq_ok.mp h
  cases after' with
  | nil => simp [branchError] at h
  | cons close after' =>
      simp only at h
      split at h
      · rename_i hclose
        simp only [Except.ok.injEq, Prod.mk.injEq] at h
        rw [hconj, hclose, h.1, h.2]
      · simp [branchError] at h

end Atom

/-! ### What the descent accepts is an expression -/

/-- Whatever `parse` takes off the tokens is a phrase. -/
def Spells (parse : List Text → Except Raised (List Branch × List Text)) (k : Category) : Prop :=
  ∀ tokens bs rest, parse tokens = .ok (bs, rest) →
    ∃ pre f, tokens = pre ++ rest ∧ Grammar k (pre.map tokenLexeme) f

section Spells

variable {parse : List Text → Except Raised (List Branch × List Text)}

theorem spells_disjunctionLoop (hparse : Spells parse .unit) {n : Nat} {bs bs' : List Branch}
    {tokens rest : List Text} (h : disjunctionLoop parse n bs tokens = .ok (bs', rest))
    {taken : List Text} {f : Formula Equality}
    (htaken : Grammar .disjunction (taken.map tokenLexeme) f) :
    ∃ pre f', tokens = pre ++ rest ∧ Grammar .disjunction ((taken ++ pre).map tokenLexeme) f' := by
  have stop : tokens = rest → ∃ pre f', tokens = pre ++ rest ∧
      Grammar .disjunction ((taken ++ pre).map tokenLexeme) f' :=
    fun heq => ⟨[], f, by simpa using heq, by simpa using htaken⟩
  induction n generalizing bs tokens taken f with
  | zero =>
      simp only [disjunctionLoop, Except.ok.injEq, Prod.mk.injEq] at h
      exact stop h.2
  | succ n ih =>
      cases tokens with
      | nil =>
          simp only [disjunctionLoop, Except.ok.injEq, Prod.mk.injEq] at h
          exact stop h.2
      | cons t tokens =>
          rw [disjunctionLoop] at h
          split at h
          · rename_i ht
            obtain ⟨⟨right, rest'⟩, hright, h₁⟩ := bind_eq_ok.mp h
            obtain ⟨united, -, h₂⟩ := bind_eq_ok.mp h₁
            obtain ⟨pre, g, rfl, hg⟩ := hparse _ _ _ hright
            have hor : Grammar .disjunction ((taken ++ t :: pre).map tokenLexeme) (f.or g) := by
              rw [List.map_append, List.map_cons, ht]
              exact .or htaken hg
            obtain ⟨pre', f', hpre', hf'⟩ := ih h₂ hor fun heq =>
              ⟨[], _, by simpa using heq, by simpa using hor⟩
            exact ⟨t :: (pre ++ pre'), f', by simp [hpre'], by simpa using hf'⟩
          · simp only [Except.ok.injEq, Prod.mk.injEq] at h
            exact stop h.2

theorem spells_disjunction (hparse : Spells parse .unit) :
    Spells (disjunction parse) .disjunction := by
  intro tokens bs rest h
  rw [disjunction] at h
  obtain ⟨⟨first, rest'⟩, hfirst, h⟩ := bind_eq_ok.mp h
  obtain ⟨pre, f, rfl, hf⟩ := hparse _ _ _ hfirst
  obtain ⟨pre', f', rfl, hf'⟩ := spells_disjunctionLoop hparse h (.unit hf)
  exact ⟨pre ++ pre', f', by simp, hf'⟩

theorem spells_conjunctionLoop (hparse : Spells parse .unit) {n : Nat} {bs bs' : List Branch}
    {tokens rest : List Text} (h : conjunctionLoop parse n bs tokens = .ok (bs', rest))
    {taken : List Text} {f : Formula Equality}
    (htaken : Grammar .conjunction (taken.map tokenLexeme) f) :
    ∃ pre f', tokens = pre ++ rest ∧ Grammar .conjunction ((taken ++ pre).map tokenLexeme) f' := by
  have stop : tokens = rest → ∃ pre f', tokens = pre ++ rest ∧
      Grammar .conjunction ((taken ++ pre).map tokenLexeme) f' :=
    fun heq => ⟨[], f, by simpa using heq, by simpa using htaken⟩
  induction n generalizing bs tokens taken f with
  | zero =>
      simp only [conjunctionLoop, Except.ok.injEq, Prod.mk.injEq] at h
      exact stop h.2
  | succ n ih =>
      cases tokens with
      | nil =>
          simp only [conjunctionLoop, Except.ok.injEq, Prod.mk.injEq] at h
          exact stop h.2
      | cons t tokens =>
          rw [conjunctionLoop] at h
          split at h
          · simp only [Except.ok.injEq, Prod.mk.injEq] at h
            exact stop h.2
          · obtain ⟨⟨right, rest'⟩, hright, h₁⟩ := bind_eq_ok.mp h
            obtain ⟨combined, -, h₂⟩ := bind_eq_ok.mp h₁
            obtain ⟨pre, g, hpre, hg⟩ := spells_disjunction hparse _ _ _ hright
            -- `AND` may be written or left out
            have hand : ∃ op : List Text, t :: tokens = op ++ pre ++ rest' ∧
                Grammar .conjunction ((taken ++ (op ++ pre)).map tokenLexeme) (f.and g) := by
              split at hpre
              · rename_i ht
                refine ⟨[t], by simp [hpre], ?_⟩
                rw [ht, List.map_append, List.map_append]
                exact .and htaken hg
              · refine ⟨[], by simp [hpre], ?_⟩
                rw [List.map_append, List.map_append]
                exact .adjacent htaken hg
            obtain ⟨op, htokens, hand⟩ := hand
            obtain ⟨pre', f', hpre', hf'⟩ := ih h₂ hand fun heq =>
              ⟨[], _, by simpa using heq, by simpa using hand⟩
            exact ⟨op ++ pre ++ pre', f', by rw [htokens, hpre']; simp, by simpa using hf'⟩

theorem spells_conjunction (hparse : Spells parse .unit) :
    Spells (conjunction parse) .conjunction := by
  intro tokens bs rest h
  rw [conjunction] at h
  obtain ⟨⟨first, rest'⟩, hfirst, h⟩ := bind_eq_ok.mp h
  obtain ⟨pre, f, rfl, hf⟩ := spells_disjunction hparse _ _ _ hfirst
  obtain ⟨pre', f', rfl, hf'⟩ := spells_conjunctionLoop hparse h (.disjunction hf)
  exact ⟨pre ++ pre', f', by simp, hf'⟩

end Spells

theorem spells_atom (levels : Nat) : Spells (atom levels) .unit := by
  induction levels with
  | zero =>
      intro tokens bs rest h
      simp [atom, branchError] at h
  | succ levels ih =>
      intro tokens bs rest h
      cases tokens with
      | nil => simp [atom, branchError] at h
      | cons t tokens =>
          have hv := tokenView t
          generalize tokenLexeme t = l at hv
          cases hv with
          | opening =>
              obtain ⟨pre, f, rfl, hf⟩ := spells_conjunction ih _ _ _ (atom_opening h)
              refine ⟨"(".toList :: (pre ++ [")".toList]), f, by simp, ?_⟩
              rw [List.map_cons, List.map_append]
              exact .group hf
          | not =>
              obtain ⟨-, bs', hatom, -⟩ := atom_not h
              obtain ⟨pre, f, rfl, hf⟩ := ih _ _ _ hatom
              exact ⟨"NOT".toList :: pre, f.not, rfl, .not hf⟩
          | closing => exact absurd h (atom_operator (by decide))
          | and => exact absurd h (atom_operator (by decide))
          | or => exact absurd h (atom_operator (by decide))
          | xor => exact absurd h (atom_operator (by decide))
          | @predicate _ p ht hp =>
              rw [atom_predicate ht hp] at h
              simp only [Except.ok.injEq, Prod.mk.injEq] at h
              refine ⟨[t], .atom p.equality, by simp [h.2], ?_⟩
              have hl : tokenLexeme t = .equality p.equality :=
                tokenLexeme_of_spelled (scopePredicateFull_eq_some_iff.mp hp)
              rw [List.map_singleton, hl]
              exact .equality
          | term ht hp =>
              rw [atom_term ht hp] at h
              simp only [Except.ok.injEq, Prod.mk.injEq] at h
              refine ⟨[t], .free, by simp [h.2], ?_⟩
              rw [List.map_singleton, tokenLexeme_of_term ht hp]
              exact .term

/-! ### Every reading has the branches the descent returns -/

/-- The tokens do not go on with another alternative. -/
def NoAlternative (tokens : List Text) : Prop := ∀ t ∈ tokens.head?, t ≠ "OR".toList

theorem disjunctionLoop_done {parse : List Text → Except Raised (List Branch × List Text)} {n : Nat}
    {bs : List Branch} {tokens : List Text} (h : NoAlternative tokens) :
    disjunctionLoop parse n bs tokens = .ok (bs, tokens) := by
  cases n with
  | zero => rfl
  | succ n =>
      cases tokens with
      | nil => rfl
      | cons t tokens => rw [disjunctionLoop, if_neg (h t rfl)]

/-- What a phrase of each category makes of the tokens it is followed by: an operand is
returned at once, and a chain of operands goes on with the loop that reads it. -/
def Returns (levels : Nat) (f : Formula Equality) (tokens rest : List Text) : Category → Prop
  | .unit => ∀ r, atom levels tokens = .ok r → ∃ bs, BranchesOf bs f ∧ r = (bs, rest)
  | .disjunction => ∀ r, disjunction (atom levels) tokens = .ok r →
      ∃ bs n, BranchesOf bs f ∧ rest.length ≤ n ∧ disjunctionLoop (atom levels) n bs rest = .ok r
  | .conjunction => NoAlternative rest → ∀ r, conjunction (atom levels) tokens = .ok r →
      ∃ bs n, BranchesOf bs f ∧ rest.length ≤ n ∧ conjunctionLoop (atom levels) n bs rest = .ok r

theorem length_lt_of_atom {levels : Nat} {tokens rest : List Text} {bs : List Branch}
    (h : atom levels tokens = .ok (bs, rest)) : rest.length < tokens.length := by
  obtain ⟨pre, f, rfl, hf⟩ := spells_atom levels _ _ _ h
  obtain ⟨l, ls, hls, -⟩ := hf.head
  cases pre with
  | nil => simp at hls
  | cons t pre =>
      simp only [List.length_append, List.length_cons]
      omega

/-- How an operator or a parenthesis is written. -/
def written : Lexeme → Option Text
  | .opening => some "(".toList
  | .closing => some ")".toList
  | .and => some "AND".toList
  | .or => some "OR".toList
  | .not => some "NOT".toList
  | .xor => some "XOR".toList
  | .equality _ | .term _ => none

theorem eq_of_tokenLexeme {t w : Text} {l : Lexeme} (h : tokenLexeme t = l)
    (hl : written l = some w) : t = w := by
  have hv := tokenView t
  rw [h] at hv
  cases hv with
  | predicate => simp [written] at hl
  | term => simp [written] at hl
  | _ => exact Option.some.inj hl

theorem noAlternative_of_opens {t : Text} {tokens : List Text} (h : (tokenLexeme t).opens = true) :
    NoAlternative (t :: tokens) := by
  intro t' ht'
  obtain rfl : t = t' := by simpa using ht'
  rintro rfl
  exact absurd h (by decide)

/-- A conjunction goes on with the operand that follows, after `AND` or directly. -/
theorem returns_operand {levels : Nat} {f g : Formula Equality} {ops toks rest : List Text}
    {tokens : List Text} (hops : ops = ["AND".toList] ∨ ops = [])
    (hhead : ∃ l ls, toks.map tokenLexeme = l :: ls ∧ l.opens = true)
    (ihf : Returns levels f tokens (ops ++ (toks ++ rest)) .conjunction)
    (ihg : Returns levels g (toks ++ rest) rest .disjunction) :
    Returns levels (f.and g) tokens rest .conjunction := by
  intro hrest r h
  obtain ⟨l, ls, hl, hopens⟩ := hhead
  cases toks with
  | nil => simp at hl
  | cons t toks =>
      obtain rfl : tokenLexeme t = l := (List.cons_eq_cons.mp hl).1
      have hno : NoAlternative (ops ++ (t :: toks ++ rest)) := by
        rcases hops with rfl | rfl
        · intro t' ht'
          obtain rfl : "AND".toList = t' := by simpa using ht'
          decide
        · exact noAlternative_of_opens hopens
      obtain ⟨bs, n, hbs, hn, hloop⟩ := ihf hno r h
      have hclose : t ≠ ")".toList := by rintro rfl; exact absurd hopens (by decide)
      have hand : t ≠ "AND".toList := by rintro rfl; exact absurd hopens (by decide)
      -- one round of the loop reads the operand
      have hround : ∃ m, rest.length ≤ m ∧ (do
          let operand ← disjunction (atom levels) (t :: toks ++ rest)
          conjunctionLoop (atom levels) m (← combineBranches bs operand.1) operand.2) = .ok r := by
        cases n with
        | zero => rcases hops with rfl | rfl <;> simp at hn
        | succ m =>
            rcases hops with rfl | rfl
            · refine ⟨m, by simp at hn; omega, ?_⟩
              rw [List.cons_append, conjunctionLoop, if_neg (by decide), if_pos rfl] at hloop
              exact hloop
            · refine ⟨m, by simp at hn; omega, ?_⟩
              rw [List.nil_append, List.cons_append, conjunctionLoop, if_neg hclose,
                if_neg hand] at hloop
              exact hloop
      obtain ⟨m, hm, hround⟩ := hround
      obtain ⟨⟨right, rest'⟩, hright, h₁⟩ := bind_eq_ok.mp hround
      obtain ⟨combined, hcombined, h₂⟩ := bind_eq_ok.mp h₁
      obtain ⟨bs', n', hbs', -, hdone⟩ := ihg _ hright
      rw [disjunctionLoop_done hrest, Except.ok.injEq, Prod.mk.injEq] at hdone
      obtain ⟨rfl, rfl⟩ := hdone
      exact ⟨combined, m, hbs.combine hbs' hcombined, hm, h₂⟩

theorem Returns.term {levels : Nat} {t w : Text} {rest : List Text} (ht : tokenLexeme t = .term w) :
    Returns levels .free (t :: rest) rest .unit := by
  intro r h
  have hv := tokenView t
  rw [ht] at hv
  cases levels with
  | zero => simp [atom, branchError] at h
  | succ levels =>
      cases hv with
      | term hop hp =>
          rw [atom_term hop hp, Except.ok.injEq] at h
          exact ⟨_, .unbounded rfl, h.symm⟩

theorem Returns.equality {levels : Nat} {t : Text} {q : Equality} {rest : List Text}
    (ht : tokenLexeme t = .equality q) : Returns levels (.atom q) (t :: rest) rest .unit := by
  intro r h
  have hv := tokenView t
  rw [ht] at hv
  cases levels with
  | zero => simp [atom, branchError] at h
  | succ levels =>
      cases hv with
      | predicate hop hp =>
          rw [atom_predicate hop hp, Except.ok.injEq] at h
          exact ⟨_, .predicate _, h.symm⟩

theorem Returns.not {levels : Nat} {toks rest : List Text} {ls : List Lexeme} {f : Formula Equality}
    (htoks : toks.map tokenLexeme = ls) (hf : Grammar .unit ls f)
    (ih : Returns levels f (toks ++ rest) rest .unit) :
    Returns (levels + 1) f.not ("NOT".toList :: (toks ++ rest)) rest .unit := by
  intro r h
  obtain ⟨bs, after⟩ := r
  obtain ⟨rfl, bs', hatom, hnone⟩ := atom_not h
  obtain ⟨_, _, hr⟩ := ih _ hatom
  obtain rfl : after = rest := (Prod.mk.inj hr).2
  have htake : (toks ++ after).take ((toks ++ after).length - after.length) = toks := by simp
  rw [htake] at hnone
  -- a negated operand that names a source would have been refused
  have hatoms : f.atoms = [] := by
    rw [List.eq_nil_iff_forall_not_mem]
    intro q hq
    have hmem := hf.atom_mem q hq
    rw [← htoks] at hmem
    obtain ⟨t, ht, hl⟩ := List.mem_map.mp hmem
    obtain ⟨p, hp, -⟩ := predicate_of_tokenLexeme hl
    rw [hnone t ht] at hp
    simp at hp
  exact ⟨_, .unbounded hatoms, rfl⟩

theorem Returns.group {levels : Nat} {toks rest : List Text} {f : Formula Equality}
    (ih : Returns levels f (toks ++ ")".toList :: rest) (")".toList :: rest) .conjunction) :
    Returns (levels + 1) f ("(".toList :: (toks ++ ")".toList :: rest)) rest .unit := by
  intro r h
  obtain ⟨bs, after⟩ := r
  have hno : NoAlternative (")".toList :: rest) := by
    intro t ht
    obtain rfl : ")".toList = t := by simpa using ht
    decide
  obtain ⟨bs', n, hbs', -, hloop⟩ := ih hno _ (atom_opening h)
  have hdone : conjunctionLoop (atom levels) n bs' (")".toList :: rest) =
      .ok (bs', ")".toList :: rest) := by
    cases n with
    | zero => rfl
    | succ n => rw [conjunctionLoop, if_pos rfl]
  rw [hdone, Except.ok.injEq, Prod.mk.injEq, List.cons.injEq] at hloop
  obtain ⟨rfl, -, rfl⟩ := hloop
  exact ⟨bs', hbs', rfl⟩

theorem Returns.unit {levels : Nat} {toks rest : List Text} {f : Formula Equality}
    (ih : Returns levels f (toks ++ rest) rest .unit) :
    Returns levels f (toks ++ rest) rest .disjunction := by
  intro r h
  rw [Spl.disjunction] at h
  obtain ⟨m, hatom, hloop⟩ := bind_eq_ok.mp h
  obtain ⟨bs, hbs, rfl⟩ := ih _ hatom
  exact ⟨bs, _, hbs, by simp, hloop⟩

theorem Returns.or {levels : Nat} {toks tokens rest : List Text} {f g : Formula Equality}
    (ihf : Returns levels f tokens ("OR".toList :: (toks ++ rest)) .disjunction)
    (ihg : Returns levels g (toks ++ rest) rest .unit) :
    Returns levels (f.or g) tokens rest .disjunction := by
  intro r h
  obtain ⟨bs, n, hbs, hn, hloop⟩ := ihf r h
  cases n with
  | zero => simp at hn
  | succ n =>
      rw [disjunctionLoop, if_pos rfl] at hloop
      obtain ⟨m, hright, h₁⟩ := bind_eq_ok.mp hloop
      obtain ⟨bs', hbs', rfl⟩ := ihg _ hright
      obtain ⟨united, hunited, h₂⟩ := bind_eq_ok.mp h₁
      refine ⟨united, n, hbs.unite hbs' hunited, ?_, h₂⟩
      simp only [List.length_cons, List.length_append] at hn
      omega

theorem Returns.disjunction {levels : Nat} {toks rest : List Text} {f : Formula Equality}
    (ih : Returns levels f (toks ++ rest) rest .disjunction) :
    Returns levels f (toks ++ rest) rest .conjunction := by
  intro hrest r h
  rw [Spl.conjunction] at h
  obtain ⟨m, hfirst, hloop⟩ := bind_eq_ok.mp h
  obtain ⟨bs, n, hbs, -, hdone⟩ := ih _ hfirst
  rw [disjunctionLoop_done hrest, Except.ok.injEq] at hdone
  subst hdone
  exact ⟨bs, _, hbs, by simp, hloop⟩

/-- **The descent follows the grammar.** -/
theorem returns_of_grammar {k : Category} {ls : List Lexeme} {f : Formula Equality}
    (h : Grammar k ls f) : ∀ {levels : Nat} {toks : List Text} (rest : List Text),
      toks.map tokenLexeme = ls → Returns levels f (toks ++ rest) rest k := by
  induction h with
  | term =>
      intro levels toks rest htoks
      obtain ⟨t, rfl, ht⟩ := List.map_eq_singleton_iff.mp htoks
      exact .term ht
  | equality =>
      intro levels toks rest htoks
      obtain ⟨t, rfl, ht⟩ := List.map_eq_singleton_iff.mp htoks
      exact .equality ht
  | not h ih =>
      intro levels toks rest htoks
      obtain ⟨t, toks, rfl, ht, hrest⟩ := List.map_eq_cons_iff.mp htoks
      obtain rfl := eq_of_tokenLexeme ht rfl
      cases levels with
      | zero => intro r hr; simp [atom, branchError] at hr
      | succ levels => exact .not hrest h (ih rest hrest)
  | group h ih =>
      intro levels toks rest htoks
      obtain ⟨a, b, rfl, ha, hb⟩ := List.map_eq_append_iff.mp htoks
      obtain ⟨t, toks, rfl, ht, hrest⟩ := List.map_eq_cons_iff.mp ha
      obtain ⟨t', rfl, ht'⟩ := List.map_eq_singleton_iff.mp hb
      obtain rfl := eq_of_tokenLexeme ht rfl
      obtain rfl := eq_of_tokenLexeme ht' rfl
      have hsplit : "(".toList :: toks ++ [")".toList] ++ rest
          = "(".toList :: (toks ++ ")".toList :: rest) := by simp
      rw [hsplit]
      cases levels with
      | zero => intro r hr; simp [atom, branchError] at hr
      | succ levels => exact .group (ih _ hrest)
  | unit h ih =>
      intro levels toks rest htoks
      exact .unit (ih rest htoks)
  | or hf hg ihf ihg =>
      intro levels toks rest htoks
      obtain ⟨a, b, rfl, ha, hb⟩ := List.map_eq_append_iff.mp htoks
      obtain ⟨t, toks, rfl, ht, hrest⟩ := List.map_eq_cons_iff.mp hb
      obtain rfl := eq_of_tokenLexeme ht rfl
      rw [List.append_assoc, List.cons_append]
      exact .or (ihf _ ha) (ihg rest hrest)
  | disjunction h ih =>
      intro levels toks rest htoks
      exact .disjunction (ih rest htoks)
  | and hf hg ihf ihg =>
      intro levels toks rest htoks
      obtain ⟨a, b, rfl, ha, hb⟩ := List.map_eq_append_iff.mp htoks
      obtain ⟨t, toks, rfl, ht, hrest⟩ := List.map_eq_cons_iff.mp hb
      obtain rfl := eq_of_tokenLexeme ht rfl
      rw [List.append_assoc]
      exact returns_operand (.inl rfl) (hrest ▸ hg.head) (ihf _ ha) (ihg rest hrest)
  | adjacent hf hg ihf ihg =>
      intro levels toks rest htoks
      obtain ⟨a, toks, rfl, ha, hrest⟩ := List.map_eq_append_iff.mp htoks
      rw [List.append_assoc]
      exact returns_operand (.inr rfl) (hrest ▸ hg.head) (ihf _ ha) (ihg rest hrest)

/-! ### Exactness -/

/-- **The branches of an expression are exact**: the expression has a meaning, and for
every meaning it has, the branches are those of that formula. -/
theorem branches_exact {db : UnicodeData} {expression : Text} {branches : List Branch}
    (hexact : ExactScope db expression) (hascii : AsciiScope expression)
    (hpipe : '|' ∉ expression) (h : source_branches expression = .ok branches) :
    (∃ f, Means expression f) ∧ ∀ f, Means expression f → BranchesOf branches f ∧
      ∀ q ∈ f.atoms, q.literal ∈ (scope_values db expression q.field.name).1 := by
  rw [source_branches] at h
  obtain ⟨tokens, htokens, h₁⟩ := bind_eq_ok.mp h
  obtain ⟨⟨branches', rest⟩, hconj, h₂⟩ := bind_eq_ok.mp h₁
  simp only at h₂
  split at h₂
  · rename_i hrest
    obtain rfl : rest = [] := by simpa using hrest
    simp only [pure, Except.pure, Except.ok.injEq] at h₂
    subst h₂
    obtain ⟨hlex, hvalues⟩ := hexact.lex hpipe hascii htokens
    refine ⟨?_, ?_⟩
    · obtain ⟨pre, f, hpre, hf⟩ := spells_conjunction (spells_atom _) _ _ _ hconj
      rw [List.append_nil] at hpre
      exact ⟨f, _, hlex, hpre ▸ hf⟩
    · rintro f ⟨lexemes, hlex', hf⟩
      rw [hlex, Option.some.injEq] at hlex'
      subst hlex'
      have hreturns : Returns maxLevels f (tokens ++ []) [] .conjunction :=
        returns_of_grammar hf [] rfl
      rw [List.append_nil] at hreturns
      obtain ⟨bs, n, hbs, -, hdone⟩ := hreturns (by simp [NoAlternative]) _ hconj
      have hend : conjunctionLoop (atom maxLevels) n bs [] = .ok (bs, []) := by cases n <;> rfl
      rw [hend, Except.ok.injEq, Prod.mk.injEq] at hdone
      refine ⟨hdone.1 ▸ hbs, ?_⟩
      intro q hq
      obtain ⟨t, ht, hl⟩ := List.mem_map.mp (hf.atom_mem q hq)
      obtain ⟨p, hp, rfl⟩ := predicate_of_tokenLexeme hl
      exact hvalues t ht p hp
  · simp [throw, throwThe, MonadExceptOf.throw] at h₂

/-- The scope of an allowed query is what its search expression can reach: the events it
can select are those of its source pairs, and all of them are approved and discovered. -/
structure ScopeExact (db : UnicodeData) (policy : SPLPolicy) (proposal : QueryProposal)
    (expression : Text) (pairs : List (Text × Text)) : Prop where
  pairs_eq : source_pairs db proposal.spl = .ok pairs
  means : ∃ f, Means expression f
  reached : ∀ f, Means expression f → ∀ (e : Event) v, f.eval e.satisfies v = true →
    (e.index, e.sourcetype) ∈ pairs ∧
      (e.index ∈ policy.approved_indexes ∧ e.index ∈ policy.discovered_indexes) ∧
      (e.sourcetype ∈ policy.approved_sourcetypes ∧ e.sourcetype ∈ policy.discovered_sourcetypes)
  reachable : ∀ f, Means expression f → ∀ pair ∈ pairs, ∃ (e : Event) (v : Nat → Bool),
    (e.index, e.sourcetype) = pair ∧ f.eval e.satisfies v = true

theorem mem_boundedPairs {branches : List Branch} {i s : Text} :
    (i, s) ∈ branches.filterMap boundedPair ↔ (some i, some s) ∈ branches := by
  rw [List.mem_filterMap]
  constructor
  · rintro ⟨⟨bi, bs⟩, hb, hpair⟩
    cases bi <;> cases bs <;> simp [boundedPair] at hpair
    obtain ⟨rfl, rfl⟩ := hpair
    exact hb
  · exact fun h => ⟨_, h, rfl⟩

/-- An expression that passed the scope checks has exactly the pairs of its branches. -/
theorem source_pairs_of_scopeChecked {db : UnicodeData} {policy : SPLPolicy} {spl : Text}
    {parsed : ParsedSPL} {branches : List Branch} (hparsed : parse_spl db spl = .ok parsed)
    (h : ScopeChecked db policy parsed.search_expression branches) :
    source_pairs db spl = .ok (branches.filterMap boundedPair) := by
  have hbounded : (branches.any fun b => b.1.isNone || b.2.isNone) = false := by
    rw [List.any_eq_false]
    intro b hb
    obtain ⟨i, s, rfl⟩ := h.bounded b hb
    simp
  rw [source_pairs, hparsed, ok_bind, h.index_exact, h.sourcetype_exact, h.branches_eq, ok_bind,
    hbounded]
  simp [h.ne_nil]

/-- **Source scope.** Where every scope predicate of an allowed query names its field in
ASCII, the scope is exact. -/
theorem scopeExact_of_allows {db : UnicodeData} {digest : CacheDigest} {policy : SPLPolicy}
    {proposal : QueryProposal} {open_question_ids : Option (List Text)} {parsed : ParsedSPL}
    (hallowed : policy.Allows db digest proposal open_question_ids)
    (hparsed : parse_spl db proposal.spl = .ok parsed)
    (hascii : AsciiScope parsed.search_expression) :
    ∃ pairs, ScopeExact db policy proposal parsed.search_expression pairs := by
  obtain ⟨parsed', branches, hparsed', hchecked⟩ := hallowed.scope
  obtain rfl : parsed' = parsed := by rw [hparsed] at hparsed'; simpa using hparsed'.symm
  have hexact : ExactScope db parsed'.search_expression := by
    intro f
    cases f with
    | index => exact hchecked.index_exact
    | sourcetype => exact hchecked.sourcetype_exact
  obtain ⟨hmeans, hall⟩ :=
    branches_exact hexact hascii (not_mem_search_expression hparsed) hchecked.branches_eq
  refine ⟨branches.filterMap boundedPair, source_pairs_of_scopeChecked hparsed hchecked, hmeans, ?_, ?_⟩
  · intro f hf e v hv
    obtain ⟨hbranches, hatoms⟩ := hall f hf
    have hattains := Formula.exists_eval_iff.mp ⟨v, hv⟩
    obtain ⟨b, hb, hmodels⟩ := (hbranches.covers e).mpr hattains
    obtain ⟨i, s, rfl⟩ := hchecked.bounded b hb
    obtain ⟨hi, hs⟩ : e.index = i ∧ e.sourcetype = s := ⟨hmodels.1 i rfl, hmodels.2 s rfl⟩
    have himem := hatoms _ (hbranches.index_mem _ hb i rfl)
    have hsmem := hatoms _ (hbranches.sourcetype_mem _ hb s rfl)
    rw [hi, hs]
    exact ⟨mem_boundedPairs.mpr hb, hchecked.index_scope i himem, hchecked.sourcetype_scope s hsmem⟩
  · intro f hf ⟨i, s⟩ hpair
    have hb := mem_boundedPairs.mp hpair
    have hattains := ((hall f hf).1.covers ⟨i, s⟩).mp
      ⟨_, hb, by simp [sourceBounds, Branch.Models]⟩
    obtain ⟨v, hv⟩ := Formula.exists_eval_iff.mpr hattains
    exact ⟨⟨i, s⟩, v, rfl, hv⟩

theorem scopeExact_of_allows_grouped :
    ∃ pairs, ScopeExact foldedLetters (singleSourcePolicy ["host".toList])
      (singleSourceProposal "search (index=main sourcetype=a) NOT host=b")
      "(index=main sourcetype=a) NOT host=b".toList pairs := by
  have hallowed : (singleSourcePolicy ["host".toList]).Allows foldedLetters
      CacheMaterial.normalized_spl
      (singleSourceProposal "search (index=main sourcetype=a) NOT host=b") none := by
    decide
  have hparsed : parse_spl foldedLetters
      (singleSourceProposal "search (index=main sourcetype=a) NOT host=b").spl =
      .ok ⟨"search (index=main sourcetype=a) NOT host=b".toList,
        [(.search, "(index=main sourcetype=a) NOT host=b".toList)]⟩ := by
    decide
  exact scopeExact_of_allows hallowed hparsed (by decide)

/-- `ındex=b` is no source equality to Splunk, but the policy takes it for a sourcetype
predicate: the query is allowed and reaches sourcetypes outside its scope. -/
theorem folded_field_escapes_scope :
    ∃ (db : UnicodeData) (policy : SPLPolicy) (proposal : QueryProposal) (parsed : ParsedSPL),
      policy.Allows db CacheMaterial.normalized_spl proposal none ∧
      parse_spl db proposal.spl = .ok parsed ∧
      ¬ ∃ pairs, ScopeExact db policy proposal parsed.search_expression pairs := by
  have hallowed : (singleSourcePolicy ["\u0131ndex".toList]).Allows foldedLetters
      CacheMaterial.normalized_spl
      (singleSourceProposal "search index=main (sourcetype=a OR \u0131ndex=b)") none := by
    decide
  have hparsed : parse_spl foldedLetters
      (singleSourceProposal "search index=main (sourcetype=a OR \u0131ndex=b)").spl =
      .ok ⟨"search index=main (sourcetype=a OR \u0131ndex=b)".toList,
        [(.search, "index=main (sourcetype=a OR \u0131ndex=b)".toList)]⟩ := by
    decide
  refine ⟨_, _, _, _, hallowed, hparsed, ?_⟩
  rintro ⟨pairs, hexact⟩
  have hlex : lex "index=main (sourcetype=a OR \u0131ndex=b)".toList =
      some [.equality ⟨.index, "main".toList⟩, .opening, .equality ⟨.sourcetype, "a".toList⟩, .or,
        .term "\u0131ndex=b".toList, .closing] := by
    decide
  have hindex : Grammar .unit [.equality ⟨.index, "main".toList⟩] _ := .equality
  have hsource : Grammar .unit [.equality ⟨.sourcetype, "a".toList⟩] _ := .equality
  have hterm : Grammar .unit [.term "\u0131ndex=b".toList] _ := .term
  have hgroup := Grammar.group (.disjunction (.or (.unit hsource) hterm))
  have hmeans := Grammar.adjacent (.disjunction (.unit hindex)) (.unit hgroup)
  have hreached := hexact.reached _ ⟨_, hlex, hmeans⟩ ⟨"main".toList, "b".toList⟩ (fun _ => true)
    (by decide)
  exact absurd hreached.2.2.1 (by decide)

end ThreatHunting.Spl
