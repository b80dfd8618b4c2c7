import ThreatHunting.Text
import ThreatHunting.Lib.Scan
import ThreatHunting.Lib.Formula

/-!
# ThreatHunting.Spl.Search

What a search expression means to Splunk, independently of the policy. `lex` cuts
the text into lexemes at whitespace and parentheses, never inside a quoted part;
`Grammar` relates lexemes to the Boolean formula they spell, with `NOT` binding to
the next term or group and `OR` binding tighter than `AND`, written or not. An
`index=` or `sourcetype=` equality is an atom about the event; any other term is
free, since nothing here says which events it selects.
-/

namespace ThreatHunting.Spl

/-- The two fields that say where an event came from. -/
inductive SourceField
  | index | sourcetype
  deriving DecidableEq, Repr

def SourceField.name : SourceField → Text
  | index => "index".toList
  | sourcetype => "sourcetype".toList

/-- An event's source: one index and one sourcetype. -/
structure Event where
  index : Text
  sourcetype : Text
  deriving DecidableEq

def Event.value (e : Event) : SourceField → Text
  | .index => e.index
  | .sourcetype => e.sourcetype

/-- The equality `field=literal`. -/
structure Equality where
  field : SourceField
  literal : Text
  deriving DecidableEq

/-- An equality is true exactly when the event's value equals the literal. -/
def Event.satisfies (e : Event) (q : Equality) : Bool := e.value q.field == q.literal

namespace Search

inductive Lexeme
  | opening | closing | and | or | not | xor
  | equality (q : Equality)
  | term (text : Text)
  deriving DecidableEq

/-! ### Lexemes -/

/-- What separates words outside quotes. -/
def isDelimiter (c : Char) : Bool := isSpace c || c == '(' || c == ')'

def isQuote (c : Char) : Bool := c == '"' || c == '\''

/-- Read a word up to the next delimiter. Inside a part quoted by `q` nothing
delimits, and a backslash takes the next character with it. -/
def word : Option Char → Text → Option (Text × Text)
  | none, [] => some ([], [])
  | some _, [] => none
  | none, c :: cs =>
      if isDelimiter c then some ([], c :: cs)
      else (word (if isQuote c then some c else none) cs).map fun m => (c :: m.1, m.2)
  | some q, c :: cs =>
      if c == q then (word none cs).map fun m => (c :: m.1, m.2)
      else if c == '\\' then
        match cs with
        | [] => none
        | d :: cs => (word (some q) cs).map fun m => (c :: d :: m.1, m.2)
      else (word (some q) cs).map fun m => (c :: m.1, m.2)

theorem word_closing (q : Char) (cs : Text) :
    word (some q) (q :: cs) = (word none cs).map fun m => (q :: m.1, m.2) := by
  rw [word.eq_def]
  simp

theorem word_inside {q c : Char} (hq : c ≠ q) (hb : c ≠ '\\') (cs : Text) :
    word (some q) (c :: cs) = (word (some q) cs).map fun m => (c :: m.1, m.2) := by
  rw [word.eq_def]
  simp [hq, hb]

theorem word_escape {q : Char} (hq : '\\' ≠ q) (d : Char) (cs : Text) :
    word (some q) ('\\' :: d :: cs) = (word (some q) cs).map fun m => ('\\' :: d :: m.1, m.2) := by
  rw [word.eq_def]
  simp [hq]

/-- A word is a prefix of the text it is read from. -/
theorem word_append {o : Option Char} {cs w rest : Text} (h : word o cs = some (w, rest)) :
    cs = w ++ rest := by
  fun_induction word o cs generalizing w with
  | case1 => simp_all
  | case2 => simp at h
  | case3 c cs hc => simp_all
  | case4 c cs hc ih =>
      obtain ⟨⟨w', rest'⟩, hw, heq⟩ := Option.map_eq_some_iff.mp h
      simp only [Prod.mk.injEq] at heq
      obtain ⟨rfl, rfl⟩ := heq
      simp [ih hw]
  | case5 q c cs hc ih =>
      obtain ⟨⟨w', rest'⟩, hw, heq⟩ := Option.map_eq_some_iff.mp h
      simp only [Prod.mk.injEq] at heq
      obtain ⟨rfl, rfl⟩ := heq
      simp [ih hw]
  | case6 => simp at h
  | case7 q c hc hb d cs ih =>
      obtain ⟨⟨w', rest'⟩, hw, heq⟩ := Option.map_eq_some_iff.mp h
      simp only [Prod.mk.injEq] at heq
      obtain ⟨rfl, rfl⟩ := heq
      simp [ih hw]
  | case8 q c cs hc hb ih =>
      obtain ⟨⟨w', rest'⟩, hw, heq⟩ := Option.map_eq_some_iff.mp h
      simp only [Prod.mk.injEq] at heq
      obtain ⟨rfl, rfl⟩ := heq
      simp [ih hw]

/-- The value a word stands for: the text between its quotes, if it is quoted. -/
def literal (w : Text) : Text :=
  match w with
  | c :: body => if isQuote c && body.getLast? == some c then body.dropLast else w
  | [] => []

/-- A source field at the front of the text, in any case. -/
def fieldNamed (f : SourceField) (cs : Text) : Option Text :=
  if (cs.take f.name.length).map asciiLower = f.name then some (cs.drop f.name.length) else none

/-- The equality `f = literal` at the front of the text. -/
def equalityOf (f : SourceField) (cs : Text) : Option (Equality × Text) :=
  (fieldNamed f cs).bind fun rest =>
    match skipSpaces rest with
    | '=' :: rest =>
        match word none (skipSpaces rest) with
        | some (c :: w, rest) => some (⟨f, literal (c :: w)⟩, rest)
        | _ => none
    | _ => none

/-- The lexeme of a word. -/
def wordLexeme (w : Text) : Lexeme :=
  if w = "AND".toList then .and
  else if w = "OR".toList then .or
  else if w = "NOT".toList then .not
  else if w = "XOR".toList then .xor
  else .term w

/-- The next lexeme: a parenthesis, an equality on a source field, or a word. -/
def nextLexeme : Text → Option (Lexeme × Text)
  | [] => none
  | c :: cs =>
      if c == '(' then some (.opening, cs)
      else if c == ')' then some (.closing, cs)
      else match (equalityOf .index (c :: cs)).or (equalityOf .sourcetype (c :: cs)) with
        | some (q, rest) => some (.equality q, rest)
        | none =>
            match word none (c :: cs) with
            | some (d :: w, rest) => some (wordLexeme (d :: w), rest)
            | _ => none

theorem fieldNamed_append {f : SourceField} {cs rest : Text} (h : fieldNamed f cs = some rest) :
    ∃ m, cs = m ++ rest := by
  rw [fieldNamed] at h
  split at h
  · simp only [Option.some.injEq] at h
    exact ⟨_, (h ▸ List.take_append_drop _ _).symm⟩
  · simp at h

theorem skipSpaces_suffix (cs : Text) : ∃ sp, cs = sp ++ skipSpaces cs :=
  ⟨cs.takeWhile isSpace, (List.takeWhile_append_dropWhile).symm⟩

/-- An equality is written with at least its `=`. -/
theorem length_equalityOf {f : SourceField} {cs rest : Text} {q : Equality}
    (h : equalityOf f cs = some (q, rest)) : rest.length < cs.length := by
  rw [equalityOf] at h
  obtain ⟨r₁, hr₁, hrest⟩ := Option.bind_eq_some_iff.mp h
  obtain ⟨m, rfl⟩ := fieldNamed_append hr₁
  obtain ⟨sp₁, hsp₁⟩ := skipSpaces_suffix r₁
  split at hrest
  · rename_i r₂ hr₂
    obtain ⟨sp₂, hsp₂⟩ := skipSpaces_suffix r₂
    split at hrest
    · rename_i c w r₃ hw
      simp only [Option.some.injEq, Prod.mk.injEq] at hrest
      rw [hsp₁, hr₂, hsp₂, word_append hw, ← hrest.2]
      simp only [List.length_append, List.length_cons]
      omega
    · simp at hrest
  · simp at hrest

theorem consuming_nextLexeme : Scan.Consuming nextLexeme := by
  intro cs l rest h
  cases cs with
  | nil => simp [nextLexeme] at h
  | cons c cs =>
      rw [nextLexeme] at h
      split at h
      · simp only [Option.some.injEq, Prod.mk.injEq] at h
        simp [← h.2]
      · split at h
        · simp only [Option.some.injEq, Prod.mk.injEq] at h
          simp [← h.2]
        · split at h
          · rename_i q rest' hq
            simp only [Option.some.injEq, Prod.mk.injEq] at h
            rw [← h.2]
            rcases Option.or_eq_some_iff.mp hq with hq | ⟨-, hq⟩
            · exact length_equalityOf hq
            · exact length_equalityOf hq
          · split at h
            · rename_i d w rest' hw
              simp only [Option.some.injEq, Prod.mk.injEq] at h
              rw [word_append hw, ← h.2]
              simp only [List.length_append, List.length_cons]
              omega
            · simp at h

/-- The lexemes of a search expression. -/
def lex (cs : Text) : Option (List Lexeme) := Scan.tokens isSpace nextLexeme cs

/-! ### Grammar -/

inductive Category
  | unit | disjunction | conjunction

/-- The lexemes spell the formula. `XOR` belongs to no phrase. -/
inductive Grammar : Category → List Lexeme → Formula Equality → Prop
  | term {w} : Grammar .unit [.term w] .free
  | equality {q} : Grammar .unit [.equality q] (.atom q)
  | not {ls f} : Grammar .unit ls f → Grammar .unit (.not :: ls) (.not f)
  | group {ls f} : Grammar .conjunction ls f → Grammar .unit (.opening :: ls ++ [.closing]) f
  | unit {ls f} : Grammar .unit ls f → Grammar .disjunction ls f
  | or {ls rs f g} : Grammar .disjunction ls f → Grammar .unit rs g →
      Grammar .disjunction (ls ++ .or :: rs) (.or f g)
  | disjunction {ls f} : Grammar .disjunction ls f → Grammar .conjunction ls f
  | and {ls rs f g} : Grammar .conjunction ls f → Grammar .disjunction rs g →
      Grammar .conjunction (ls ++ .and :: rs) (.and f g)
  | adjacent {ls rs f g} : Grammar .conjunction ls f → Grammar .disjunction rs g →
      Grammar .conjunction (ls ++ rs) (.and f g)

/-- The text is a search expression that means the formula. -/
def Means (expression : Text) (f : Formula Equality) : Prop :=
  ∃ lexemes, lex expression = some lexemes ∧ Grammar .conjunction lexemes f

/-- A lexeme that can begin a term or a group. -/
def Lexeme.opens : Lexeme → Bool
  | .opening | .not | .equality _ | .term _ => true
  | _ => false

theorem Grammar.head {k : Category} {ls : List Lexeme} {f : Formula Equality}
    (h : Grammar k ls f) : ∃ l rest, ls = l :: rest ∧ l.opens = true := by
  induction h with
  | term => exact ⟨_, _, rfl, rfl⟩
  | equality => exact ⟨_, _, rfl, rfl⟩
  | not _ _ => exact ⟨_, _, rfl, rfl⟩
  | group _ _ => exact ⟨_, _, rfl, rfl⟩
  | unit _ ih => exact ih
  | disjunction _ ih => exact ih
  | or _ _ ih _ =>
      obtain ⟨l, rest, rfl, hl⟩ := ih
      exact ⟨l, _, rfl, hl⟩
  | and _ _ ih _ =>
      obtain ⟨l, rest, rfl, hl⟩ := ih
      exact ⟨l, _, rfl, hl⟩
  | adjacent _ _ ih _ =>
      obtain ⟨l, rest, rfl, hl⟩ := ih
      exact ⟨l, _, rfl, hl⟩

/-- The atoms of a formula are equalities among its lexemes. -/
theorem Grammar.atom_mem {k : Category} {ls : List Lexeme} {f : Formula Equality}
    (h : Grammar k ls f) : ∀ q ∈ f.atoms, Lexeme.equality q ∈ ls := by
  induction h with
  | term => simp [Formula.atoms]
  | equality => simp [Formula.atoms]
  | not _ ih => exact fun q hq => List.mem_cons_of_mem _ (ih q hq)
  | group _ ih => exact fun q hq => by simp [ih q hq]
  | unit _ ih => exact ih
  | disjunction _ ih => exact ih
  | or _ _ ihf ihg =>
      intro q hq
      rcases List.mem_append.mp hq with hq | hq
      · simp [ihf q hq]
      · simp [ihg q hq]
  | and _ _ ihf ihg =>
      intro q hq
      rcases List.mem_append.mp hq with hq | hq
      · simp [ihf q hq]
      · simp [ihg q hq]
  | adjacent _ _ ihf ihg =>
      intro q hq
      rcases List.mem_append.mp hq with hq | hq
      · simp [ihf q hq]
      · simp [ihg q hq]

end Search

end ThreatHunting.Spl
