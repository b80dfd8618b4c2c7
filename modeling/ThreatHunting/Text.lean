import ThreatHunting.Lib.Scan

/-!
# ThreatHunting.Text

Python text as the code uses it: a `str` is its list of code points, and the few
`str` methods and `re` character classes the policy relies on are spelled out.

Three Unicode tables are too large to write down (`\w`, decimal digits, and
`str.isdigit`). They only matter above ASCII, so they enter as a `UnicodeData`
consulted for non-ASCII characters alone; every result holds for all of them.

`re.IGNORECASE` on a `str` pattern is *not* ASCII-only: `i` also matches `ı`
(U+0131) and `İ` (U+0130), `s` also matches `ſ` (U+017F), and `k` also matches
the Kelvin sign (U+212A). `matchesIgnoreCase` keeps those.
-/

namespace ThreatHunting

/-- A Python `str`: its code points. -/
abbrev Text := List Char

instance lawfulBEqText : LawfulBEq Text := inferInstance

/-- A property of every character of a text is decided along the text, never over the alphabet. -/
instance (priority := 1100) decidableForallText (P : Char → Prop) [DecidablePred P] (t : Text) :
    Decidable (∀ c ∈ t, P c) :=
  List.decidableBAll P t

/-- The same of the one character that may be there. -/
instance (priority := 1100) decidableForallChar (P : Char → Prop) [DecidablePred P] :
    (o : Option Char) → Decidable (∀ c ∈ o, P c)
  | none => isTrue (by simp)
  | some c => decidable_of_iff (P c) (by simp)

def isAscii (c : Char) : Bool := c.val < 128

def isAsciiUpper (c : Char) : Bool := 'A' ≤ c && c ≤ 'Z'

def isAsciiLower (c : Char) : Bool := 'a' ≤ c && c ≤ 'z'

def isAsciiDigit (c : Char) : Bool := '0' ≤ c && c ≤ '9'

def isAsciiLetter (c : Char) : Bool := isAsciiUpper c || isAsciiLower c

/-- `[A-Za-z0-9_]` without `re.IGNORECASE`. -/
def isAsciiWord (c : Char) : Bool := isAsciiLetter c || isAsciiDigit c || c == '_'

/-- The whitespace characters of Unicode. -/
def spaces : List Char :=
  ['\t', '\n', '\x0b', '\x0c', '\r', '\x1c', '\x1d', '\x1e', '\x1f', ' ', '\u0085', '\u00a0',
    '\u1680', '\u2000', '\u2001', '\u2002', '\u2003', '\u2004', '\u2005', '\u2006', '\u2007',
    '\u2008', '\u2009', '\u200a', '\u2028', '\u2029', '\u202f', '\u205f', '\u3000']

/-- `str.isspace` and `\s`. -/
def isSpace (c : Char) : Bool := c ∈ spaces

/-- What holds of the whitespace characters one by one. -/
theorem of_isSpace (P : Char → Prop) (h : ∀ c ∈ spaces, P c) {c : Char} (hc : isSpace c = true) :
    P c :=
  h c (by simpa [isSpace] using hc)

/-- What the Unicode database says about non-ASCII characters. -/
structure UnicodeData where
  /-- `\w` of the `re` module. -/
  word : Char → Bool
  /-- The value of a decimal digit (`\d`, `int`). -/
  decimal : Char → Option Nat
  /-- `str.isdigit` of a single character. -/
  digit : Char → Bool
  /-- Whitespace is not alphanumeric. -/
  word_of_isSpace : ∀ c, isSpace c = true → word c = false

namespace UnicodeData

variable (db : UnicodeData)

/-- `\w`. -/
def isWord (c : Char) : Bool := if isAscii c then isAsciiWord c else db.word c

/-- The value of `c` as a decimal digit, if it is one (`\d`). -/
def decimalValue (c : Char) : Option Nat :=
  if isAscii c then (if isAsciiDigit c then some (c.val.toNat - 48) else none) else db.decimal c

def isDecimal (c : Char) : Bool := (db.decimalValue c).isSome

/-- `str.isdigit`: non-empty and digits throughout. -/
def isDigits (cs : Text) : Bool :=
  !cs.isEmpty && cs.all fun c => if isAscii c then isAsciiDigit c else db.digit c

end UnicodeData

/-! ### Case -/

def asciiLower (c : Char) : Char := if isAsciiUpper c then Char.ofNat (c.val.toNat + 32) else c

def asciiUpper (c : Char) : Char := if isAsciiLower c then Char.ofNat (c.val.toNat - 32) else c

/-- `str.lower`, exact wherever the result contains an ASCII character; the other
characters stay non-ASCII and stand for themselves. -/
def lowerChar (c : Char) : Text :=
  if c = '\u212a' then ['k'] else if c = '\u0130' then ['i', '\u0307'] else [asciiLower c]

def lower (cs : Text) : Text := cs.flatMap lowerChar

/-- `str.upper`, exact wherever the result is all ASCII. -/
def upperChar (c : Char) : Text :=
  if c = '\u00df' then ['S', 'S'] else if c = '\u0131' then ['I'] else if c = '\u017f' then ['S']
  else if c = '\ufb00' then ['F', 'F'] else if c = '\ufb01' then ['F', 'I'] else if c = '\ufb02' then ['F', 'L']
  else if c = '\ufb03' then ['F', 'F', 'I'] else if c = '\ufb04' then ['F', 'F', 'L']
  else if c = '\ufb05' then ['S', 'T'] else if c = '\ufb06' then ['S', 'T'] else [asciiUpper c]

def upper (cs : Text) : Text := cs.flatMap upperChar

/-- `str.casefold` on the letters a case-insensitive match of `index` or
`sourcetype` can contain (and on ASCII). -/
def casefoldChar (c : Char) : Text :=
  if c = '\u017f' then ['s'] else lowerChar c

def casefold (cs : Text) : Text := cs.flatMap casefoldChar

/-- Does the pattern letter `p` (lower case) match `c` under `re.IGNORECASE`? -/
def matchesIgnoreCase (p c : Char) : Bool :=
  c == p || c == asciiUpper p || (p == 'i' && (c == '\u0131' || c == '\u0130')) || (p == 's' && c == '\u017f')
    || (p == 'k' && c == '\u212a')

/-- The four non-ASCII characters a `[A-Za-z…]` class admits under `re.IGNORECASE`. -/
def isFoldedLetter (c : Char) : Bool := c == '\u0131' || c == '\u0130' || c == '\u017f' || c == '\u212a'

/-- `[A-Za-z0-9_]` under `re.IGNORECASE`. -/
def isWordIgnoreCase (c : Char) : Bool := isAsciiWord c || isFoldedLetter c

/-- Match the keyword `kw` case-insensitively at the front; the text as written
and what follows it. -/
def takeKeyword : Text → Text → Option (Text × Text)
  | [], cs => some ([], cs)
  | _ :: _, [] => none
  | k :: kw, c :: cs =>
      if matchesIgnoreCase k c then (takeKeyword kw cs).map fun (m, rest) => (c :: m, rest)
      else none

/-! ### ASCII letters -/

theorem exists_upper {c : Char} (h : isAsciiUpper c = true) :
    ∃ n, 65 ≤ n ∧ n ≤ 90 ∧ c = Char.ofNat n := by
  simp only [isAsciiUpper, Bool.and_eq_true, decide_eq_true_eq] at h
  exact ⟨c.toNat, h.1, h.2, (Char.ofNat_toNat c).symm⟩

theorem asciiUpper_asciiLower {c : Char} (h : isAsciiUpper c = true) :
    asciiUpper (asciiLower c) = c := by
  obtain ⟨n, h₁, h₂, rfl⟩ := exists_upper h
  interval_cases n <;> decide

theorem isAscii_of_isAsciiUpper {c : Char} (h : isAsciiUpper c = true) : isAscii c = true := by
  obtain ⟨n, h₁, h₂, rfl⟩ := exists_upper h
  interval_cases n <;> decide

/-- Folding to an ASCII character starts from one. -/
theorem isAscii_of_asciiLower {c : Char} (h : isAscii (asciiLower c) = true) : isAscii c = true := by
  by_cases hc : isAsciiUpper c = true
  · exact isAscii_of_isAsciiUpper hc
  · rwa [asciiLower, if_neg hc] at h

/-- A letter and its lower-case form match each other. -/
theorem matchesIgnoreCase_asciiLower (c : Char) : matchesIgnoreCase (asciiLower c) c = true := by
  by_cases hc : isAsciiUpper c = true
  · simp [matchesIgnoreCase, asciiUpper_asciiLower hc]
  · simp [matchesIgnoreCase, asciiLower, hc]

theorem casefoldChar_of_isAscii {c : Char} (h : isAscii c = true) : casefoldChar c = [asciiLower c] := by
  have h₁ : c ≠ '\u017f' := by rintro rfl; exact absurd h (by decide)
  have h₂ : c ≠ '\u212a' := by rintro rfl; exact absurd h (by decide)
  have h₃ : c ≠ '\u0130' := by rintro rfl; exact absurd h (by decide)
  simp [casefoldChar, lowerChar, h₁, h₂, h₃]

theorem casefold_of_isAscii {cs : Text} (h : ∀ c ∈ cs, isAscii c = true) :
    casefold cs = cs.map asciiLower := by
  induction cs with
  | nil => rfl
  | cons c cs ih =>
      rw [List.forall_mem_cons] at h
      have ih := ih h.2
      rw [casefold] at ih ⊢
      rw [List.flatMap_cons, casefoldChar_of_isAscii h.1, ih]
      rfl

/-- Lower-case ASCII keywords, the only ones the readers look for. -/
def IsKeyword (kw : Text) : Prop :=
  ∀ k ∈ kw, isAscii k = true ∧ asciiLower k = k ∧ asciiLower (asciiUpper k) = k

instance (kw : Text) : Decidable (IsKeyword kw) := by unfold IsKeyword; infer_instance

theorem asciiLower_of_matchesIgnoreCase {k c : Char} (hk : asciiLower k = k)
    (hk' : asciiLower (asciiUpper k) = k) (hc : isAscii c = true)
    (h : matchesIgnoreCase k c = true) : asciiLower c = k := by
  simp only [matchesIgnoreCase, Bool.or_eq_true, Bool.and_eq_true, beq_iff_eq] at h
  rcases h with (((rfl | rfl) | ⟨-, rfl | rfl⟩) | ⟨-, rfl⟩) | ⟨-, rfl⟩
  · exact hk
  · exact hk'
  all_goals exact absurd hc (by decide)

/-- What `takeKeyword` takes is a prefix as long as the keyword. -/
theorem takeKeyword_eq_some {kw cs m rest : Text} (h : takeKeyword kw cs = some (m, rest)) :
    cs = m ++ rest ∧ m.length = kw.length := by
  induction kw generalizing cs m with
  | nil =>
      simp only [takeKeyword, Option.some.injEq, Prod.mk.injEq] at h
      simp [← h.1, h.2]
  | cons k kw ih =>
      cases cs with
      | nil => simp [takeKeyword] at h
      | cons c cs =>
          rw [takeKeyword] at h
          split at h
          · obtain ⟨⟨m', rest'⟩, hm, heq⟩ := Option.map_eq_some_iff.mp h
            simp only [Prod.mk.injEq] at heq
            obtain ⟨rfl, rfl⟩ := heq
            obtain ⟨rfl, hlen⟩ := ih hm
            simp [hlen]
          · simp at h

/-- Whether a keyword matches only depends on as many characters as it has. -/
theorem takeKeyword_append {kw a : Text} (h : kw.length ≤ a.length) (b : Text) :
    takeKeyword kw (a ++ b) = (takeKeyword kw a).map fun m => (m.1, m.2 ++ b) := by
  induction kw generalizing a with
  | nil => rfl
  | cons k kw ih =>
      cases a with
      | nil => simp at h
      | cons c a =>
          simp only [List.length_cons, Nat.add_le_add_iff_right] at h
          rw [List.cons_append, takeKeyword, takeKeyword]
          split
          · rw [ih h]
            simp [Option.map_map, Function.comp_def]
          · rfl

theorem map_asciiLower_of_takeKeyword {kw cs m rest : Text} (hkw : IsKeyword kw)
    (h : takeKeyword kw cs = some (m, rest)) (hm : ∀ c ∈ m, isAscii c = true) :
    m.map asciiLower = kw := by
  induction kw generalizing cs m with
  | nil =>
      simp only [takeKeyword, Option.some.injEq, Prod.mk.injEq] at h
      simp [← h.1]
  | cons k kw ih =>
      cases cs with
      | nil => simp [takeKeyword] at h
      | cons c cs =>
          rw [takeKeyword] at h
          split at h
          · rename_i hc
            obtain ⟨⟨m', rest'⟩, hm', heq⟩ := Option.map_eq_some_iff.mp h
            simp only [Prod.mk.injEq] at heq
            obtain ⟨rfl, rfl⟩ := heq
            have hk := hkw k List.mem_cons_self
            rw [List.forall_mem_cons] at hm
            have hlower := asciiLower_of_matchesIgnoreCase hk.2.1 hk.2.2 hm.1 hc
            have htail := ih (fun k' hk' => hkw k' (List.mem_cons_of_mem _ hk')) hm' hm.2
            simp [hlower, htail]
          · simp at h

theorem takeKeyword_of_map_asciiLower {kw m : Text} (h : m.map asciiLower = kw) (rest : Text) :
    takeKeyword kw (m ++ rest) = some (m, rest) := by
  induction m generalizing kw with
  | nil => simp at h; subst h; rfl
  | cons c m ih =>
      subst h
      simp [takeKeyword, matchesIgnoreCase_asciiLower, ih rfl]

/-! ### Stripping, splitting and joining -/

def skipSpaces (cs : Text) : Text := cs.dropWhile isSpace

/-- `str.rstrip()`. -/
def rstrip (cs : Text) : Text := cs.rdropWhile isSpace

/-- `str.strip()`. -/
def strip (cs : Text) : Text := rstrip (skipSpaces cs)

theorem skipSpaces_eq_cons {cs rest : Text} {c : Char} (h : skipSpaces cs = c :: rest) :
    ∃ sp, cs = sp ++ c :: rest ∧ (∀ d ∈ sp, isSpace d = true) ∧ isSpace c = false := by
  obtain ⟨sp, tail, rfl, -, hdrop, hsp, hstop⟩ := Scan.exists_run isSpace cs
  rw [skipSpaces, hdrop] at h
  subst h
  exact ⟨sp, rfl, hsp, Scan.stops_cons.mp hstop⟩

theorem skipSpaces_append {sp rest : Text} {c : Char} (hsp : ∀ d ∈ sp, isSpace d = true)
    (hc : isSpace c = false) : skipSpaces (sp ++ c :: rest) = c :: rest :=
  Scan.dropWhile_append_of_stops hsp (Scan.stops_cons.mpr hc)

/-- Neither the first nor the last character is whitespace. -/
def Trimmed (cs : Text) : Prop :=
  (∀ c ∈ cs.head?, isSpace c = false) ∧ ∀ c ∈ cs.getLast?, isSpace c = false

theorem trimmed_strip (cs : Text) : Trimmed (strip cs) := by
  constructor
  · intro c hc
    have hprefix : strip cs <+: skipSpaces cs := List.rdropWhile_prefix _ _
    obtain ⟨rest, hrest⟩ := hprefix
    have hhead : c ∈ (skipSpaces cs).head? := by
      rw [← hrest, List.head?_append, Option.mem_def.mp hc]
      rfl
    exact Scan.stops_dropWhile c hhead
  · intro c hc
    have hne : strip cs ≠ [] := by
      rintro hnil
      simp [hnil] at hc
    rw [List.getLast?_eq_some_getLast hne, Option.mem_some_iff] at hc
    have hlast := List.rdropWhile_last_not isSpace (skipSpaces cs) hne
    rw [← hc]
    simpa [strip, rstrip] using hlast

theorem strip_of_trimmed {cs : Text} (h : Trimmed cs) : strip cs = cs := by
  have hskip : skipSpaces cs = cs := by
    cases cs with
    | nil => rfl
    | cons c cs => exact List.dropWhile_cons_of_neg (by simp [h.1 c rfl])
  rw [strip, hskip, rstrip, List.rdropWhile_eq_self_iff]
  intro hne
  rw [h.2 _ (List.getLast?_eq_getLast_of_ne_nil hne)]
  simp

theorem strip_strip (cs : Text) : strip (strip cs) = strip cs := strip_of_trimmed (trimmed_strip cs)

theorem strip_cons {c : Char} (hc : isSpace c = true) (cs : Text) : strip (c :: cs) = strip cs := by
  rw [strip, skipSpaces, List.dropWhile_cons_of_pos hc]
  rfl

/-- Only leading whitespace is stripped from a text that ends in something else. -/
theorem strip_of_getLast {cs : Text} (h : ∀ c ∈ cs.getLast?, isSpace c = false) :
    strip cs = skipSpaces cs := by
  rw [strip, rstrip, List.rdropWhile_eq_self_iff]
  intro hne
  have hsplit : cs.takeWhile isSpace ++ skipSpaces cs = cs := List.takeWhile_append_dropWhile
  have hlast : (skipSpaces cs).getLast hne ∈ cs.getLast? := by
    have happ := List.getLast?_append_of_ne_nil (cs.takeWhile isSpace) hne
    rw [hsplit, List.getLast?_eq_some_getLast hne] at happ
    exact happ
  rw [h _ hlast]
  simp

theorem rstrip_append (xs ys : Text) :
    rstrip (xs ++ ys) = if (rstrip ys).isEmpty then rstrip xs else xs ++ rstrip ys := by
  unfold rstrip List.rdropWhile
  rw [List.reverse_append, List.dropWhile_append]
  split <;> simp_all

/-- `str.strip(chars)`. -/
def stripChars (chars : List Char) (cs : Text) : Text :=
  (cs.dropWhile (· ∈ chars)).rdropWhile (· ∈ chars)

/-- `str.lstrip(chars)`. -/
def lstripChars (chars : List Char) (cs : Text) : Text := cs.dropWhile (· ∈ chars)

/-- `sep.join(parts)`. -/
def join (sep : String) (parts : List Text) : Text := sep.toList.intercalate parts

/-- The maximal runs of characters outside a separator class: `re.findall` of a
negated class with `+`, and, for whitespace, `str.split()`. -/
def runs (sep : Char → Bool) (cs : Text) : List Text :=
  (cs.splitOnP sep).filter fun part => !part.isEmpty

end ThreatHunting
