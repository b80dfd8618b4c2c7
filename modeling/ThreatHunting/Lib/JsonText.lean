import ThreatHunting.Lib.Fallible
import ThreatHunting.Lib.Json

/-!
# ThreatHunting.Lib.JsonText

`json.dumps(…, sort_keys=True, separators=(",", ":"))`, which writes ASCII characters only, and
`json.loads`, which reads its text back (`loads_dumpsAscii`).

A string has no halves of surrogate pairs, so an escape that stands for one is not read. `float_of`
is Python's `float` of a number literal; what a float is, is its `repr`.
-/

namespace Json

open Fallible

/-! ### Writing -/

/-- The escape of a UTF-16 code unit. -/
def unitEscape (n : Nat) : List Char := '\\' :: 'u' :: hex 4 n

/-- One character of a string literal that has ASCII characters only. -/
def asciiEscape (c : Char) : List Char :=
  if c = '"' then ['\\', '"']
  else if c = '\\' then ['\\', '\\']
  else if c = '\n' then ['\\', 'n']
  else if c = '\r' then ['\\', 'r']
  else if c = '\t' then ['\\', 't']
  else if c = '\x08' then ['\\', 'b']
  else if c = '\x0c' then ['\\', 'f']
  else if 32 ≤ c.toNat ∧ c.toNat < 127 then [c]
  else if c.toNat < 0x10000 then unitEscape c.toNat
  else unitEscape (0xd800 + (c.toNat - 0x10000) / 0x400) ++ unitEscape (0xdc00 + (c.toNat - 0x10000) % 0x400)

/-- A string literal that has ASCII characters only. -/
def asciiQuote (s : String) : List Char := '"' :: (s.toList.flatMap asciiEscape ++ ['"'])

mutual

/-- The text of a value, its members in the order they have. -/
def write : Json → List Char
  | .null => "null".toList
  | .bool true => "true".toList
  | .bool false => "false".toList
  | .int n => (toString n).toList
  | .float repr => repr.toList
  | .nonfinite => "NaN".toList
  | .string s => asciiQuote s
  | .array items => enclose '[' ']' (writeItems items)
  | .object members => enclose '{' '}' (writeMembers members)

def writeItems : List Json → List (List Char)
  | [] => []
  | j :: js => write j :: writeItems js

def writeMembers : List (String × Json) → List (List Char)
  | [] => []
  | (k, j) :: ms => (asciiQuote k ++ ':' :: write j) :: writeMembers ms

end

/-- `sys.get_int_max_str_digits()`. -/
def maxDigits : Nat := 4300

mutual

/-- Has no integer more digits than Python converts? -/
def short : Json → Bool
  | .int n => (Nat.toDigits 10 n.natAbs).length ≤ maxDigits
  | .array items => shortItems items
  | .object members => shortMembers members
  | _ => true

def shortItems : List Json → Bool
  | [] => true
  | j :: js => short j && shortItems js

def shortMembers : List (String × Json) → Bool
  | [] => true
  | (_, j) :: ms => short j && shortMembers ms

end

/-- `json.dumps`; a `ValueError` is `none`. -/
def dumpsAscii (j : Json) : Option (List Char) := if j.short then some j.sorted.write else none

/-! ### Reading -/

/-- How `json.loads` fails. -/
inductive LoadError
  /-- `JSONDecodeError`: the text is no JSON. -/
  | decode_error
  /-- Another `ValueError`: an integer has more digits than Python converts. -/
  | value_error
  /-- The text nests deeper than the interpreter reads; nothing here does. -/
  | recursion_error
  deriving DecidableEq, Repr

/-- What was scanned, where something had to be. -/
def expect {α : Type} : Option α → Except LoadError α
  | some a => .ok a
  | none => .error .decode_error

/-- Whitespace between tokens. -/
def skipBlank (cs : List Char) : List Char := cs.dropWhile fun c => c ∈ [' ', '\t', '\n', '\r']

def hexValue (c : Char) : Option Nat :=
  if '0' ≤ c ∧ c ≤ '9' then some (c.toNat - 48)
  else if 'a' ≤ c ∧ c ≤ 'f' then some (c.toNat - 87)
  else if 'A' ≤ c ∧ c ≤ 'F' then some (c.toNat - 55)
  else none

/-- `_decode_uXXXX`. -/
def scanUnit : List Char → Option (Nat × List Char)
  | a :: b :: c :: d :: cs => do
      return ((((← hexValue a) * 16 + (← hexValue b)) * 16 + (← hexValue c)) * 16 + (← hexValue d), cs)
  | _ => none

/-- What follows a backslash. -/
def scanEscape : List Char → Option (Char × List Char)
  | '"' :: cs => some ('"', cs)
  | '\\' :: cs => some ('\\', cs)
  | '/' :: cs => some ('/', cs)
  | 'b' :: cs => some ('\x08', cs)
  | 'f' :: cs => some ('\x0c', cs)
  | 'n' :: cs => some ('\n', cs)
  | 'r' :: cs => some ('\r', cs)
  | 't' :: cs => some ('\t', cs)
  | 'u' :: cs => do
      let (unit, rest) ← scanUnit cs
      if unit < 0xd800 ∨ 0xdfff < unit then return (Char.ofNat unit, rest)
      if 0xdbff < unit then none
      match rest with
      | '\\' :: 'u' :: rest =>
          let (low, rest) ← scanUnit rest
          if 0xdc00 ≤ low ∧ low ≤ 0xdfff then
            return (Char.ofNat (0x10000 + ((unit - 0xd800) * 0x400 + (low - 0xdc00))), rest)
          none
      | _ => none
  | _ => none

/-- A character of a string literal. -/
def scanChar : List Char → Option (Char × List Char)
  | '\\' :: cs => scanEscape cs
  | c :: cs => if c.toNat < 32 then none else some (c, cs)
  | [] => none

/-- `scanstring`: a string up to the closing quote. -/
def scanString : Nat → List Char → Option (List Char × List Char)
  | _, '"' :: cs => some ([], cs)
  | n + 1, cs => do
      let (c, rest) ← scanChar cs
      let (s, rest) ← scanString n rest
      return (c :: s, rest)
  | 0, _ => none

/-- `0|[1-9][0-9]*`. -/
def naturalPart : List Char → Option (List Char × List Char)
  | '0' :: cs => some (['0'], cs)
  | c :: cs => if c.isDigit then some (c :: cs.takeWhile Char.isDigit, cs.dropWhile Char.isDigit) else none
  | [] => none

/-- `-?(0|[1-9][0-9]*)`. -/
def integerPart : List Char → Option (List Char × List Char)
  | '-' :: cs => (naturalPart cs).map fun (ds, rest) => ('-' :: ds, rest)
  | cs => naturalPart cs

/-- Digits after some characters, or nothing. -/
def digitsAfter (start cs : List Char) : Option (List Char × List Char) :=
  match cs.takeWhile Char.isDigit with
  | [] => none
  | ds => some (start ++ ds, cs.dropWhile Char.isDigit)

/-- `(\.[0-9]+)?`. -/
def fractionPart (cs : List Char) : List Char × List Char :=
  (match cs with
    | '.' :: rest => digitsAfter ['.'] rest
    | _ => none).getD ([], cs)

/-- `([eE][-+]?[0-9]+)?`. -/
def exponentPart (cs : List Char) : List Char × List Char :=
  (match cs with
    | c :: rest =>
        if c = 'e' ∨ c = 'E' then
          match rest with
          | '-' :: rest => digitsAfter [c, '-'] rest
          | '+' :: rest => digitsAfter [c, '+'] rest
          | rest => digitsAfter [c] rest
        else none
    | [] => none).getD ([], cs)

/-- `NUMBER_RE`: an integer, a fraction and an exponent. -/
def numberParts (cs : List Char) : Option ((List Char × List Char × List Char) × List Char) := do
  let (integer, rest) ← integerPart cs
  let (fraction, rest) := fractionPart rest
  let (exponent, rest) := exponentPart rest
  return ((integer, fraction, exponent), rest)

/-- `int` of the digits of an integer. -/
def intOf : List Char → Except LoadError Int
  | '-' :: ds => if ds.length ≤ maxDigits then .ok (-(Nat.ofDigitChars 10 ds 0 : Int)) else .error .value_error
  | ds => if ds.length ≤ maxDigits then .ok (Nat.ofDigitChars 10 ds 0) else .error .value_error

def scanConstant : List Char → Option (Json × List Char)
  | 'n' :: 'u' :: 'l' :: 'l' :: cs => some (.null, cs)
  | 't' :: 'r' :: 'u' :: 'e' :: cs => some (.bool true, cs)
  | 'f' :: 'a' :: 'l' :: 's' :: 'e' :: cs => some (.bool false, cs)
  | _ => none

/-- The numbers that are not finite. -/
def scanNonfinite : List Char → Option (Json × List Char)
  | 'N' :: 'a' :: 'N' :: cs => some (.nonfinite, cs)
  | 'I' :: 'n' :: 'f' :: 'i' :: 'n' :: 'i' :: 't' :: 'y' :: cs => some (.nonfinite, cs)
  | '-' :: 'I' :: 'n' :: 'f' :: 'i' :: 'n' :: 'i' :: 't' :: 'y' :: cs => some (.nonfinite, cs)
  | _ => none

/-- A member is added, or replaces the one with its key. -/
def assign (ms : List (String × Json)) (m : String × Json) : List (String × Json) :=
  if m.1 ∈ ms.map Prod.fst then ms.map fun m' => if m'.1 = m.1 then m else m' else ms ++ [m]

/-- `dict` of the members read. -/
def dict (ms : List (String × Json)) : List (String × Json) := ms.foldl assign []

section Scan

variable (float_of : List Char → Json)

def scanNumber (cs : List Char) : Except LoadError (Json × List Char) := do
  let ((integer, fraction, exponent), rest) ← expect (numberParts cs)
  if fraction.isEmpty && exponent.isEmpty then return (.int (← intOf integer), rest)
  return (float_of (integer ++ fraction ++ exponent), rest)

mutual

/-- `scan_once`. -/
def scanOnce : Nat → List Char → Except LoadError (Json × List Char)
  | 0, _ => .error .decode_error
  | n + 1, cs =>
      match cs with
      | '"' :: cs => (expect (scanString n cs)).map fun (s, rest) => (.string (String.ofList s), rest)
      | '[' :: cs =>
          match skipBlank cs with
          | ']' :: rest => .ok (.array [], rest)
          | cs => (scanItems n cs).map fun (items, rest) => (.array items, rest)
      | '{' :: cs =>
          match skipBlank cs with
          | '}' :: rest => .ok (.object [], rest)
          | cs => (scanMembers n cs).map fun (ms, rest) => (.object (dict ms), rest)
      | cs =>
          match scanConstant cs with
          | some found => .ok found
          | none => if (numberParts cs).isSome then scanNumber float_of cs else expect (scanNonfinite cs)

/-- The items of an array from the first on, and its closing bracket. -/
def scanItems : Nat → List Char → Except LoadError (List Json × List Char)
  | 0, _ => .error .decode_error
  | n + 1, cs => do
      let (item, rest) ← scanOnce n cs
      match skipBlank rest with
      | ']' :: rest => return ([item], rest)
      | ',' :: rest =>
          let (items, rest) ← scanItems n (skipBlank rest)
          return (item :: items, rest)
      | _ => .error .decode_error

/-- The members of an object from the first on, and its closing bracket. -/
def scanMembers : Nat → List Char → Except LoadError (List (String × Json) × List Char)
  | n + 1, '"' :: cs => do
      let (key, rest) ← expect (scanString n cs)
      match skipBlank rest with
      | ':' :: rest =>
          let (value, rest) ← scanOnce n (skipBlank rest)
          match skipBlank rest with
          | '}' :: rest => return ([(String.ofList key, value)], rest)
          | ',' :: rest =>
              let (ms, rest) ← scanMembers n (skipBlank rest)
              return ((String.ofList key, value) :: ms, rest)
          | _ => .error .decode_error
      | _ => .error .decode_error
  | _, _ => .error .decode_error

end

/-- `json.loads`. -/
def loads (cs : List Char) : Except LoadError Json := do
  let (j, rest) ← scanOnce float_of (cs.length + 1) (skipBlank cs)
  if (skipBlank rest).isEmpty then .ok j else .error .decode_error

end Scan

theorem expect_eq_ok {α : Type} {o : Option α} {a : α} : expect o = .ok a ↔ o = some a := by
  cases o <;> simp [expect]

/-! ### Strings are read back -/

theorem hexValue_digitChar : ∀ d < 16, hexValue (Nat.digitChar d) = some d := by decide

theorem scanUnit_hex {n : Nat} (hn : n < 65536) (rest : List Char) : scanUnit (hex 4 n ++ rest) = some (n, rest) := by
  have hdigits : hex 4 n ++ rest = Nat.digitChar (n / 16 / 16 / 16 % 16) :: Nat.digitChar (n / 16 / 16 % 16) ::
      Nat.digitChar (n / 16 % 16) :: Nat.digitChar (n % 16) :: rest := by
    simp [hex]
  have hvalue : ∀ k, hexValue (Nat.digitChar (k % 16)) = some (k % 16) := fun k =>
    hexValue_digitChar _ (Nat.mod_lt _ (by decide))
  simp only [hdigits, scanUnit, hvalue, Option.bind_eq_bind, Option.bind_some, Option.pure_def, Option.some.injEq,
    Prod.mk.injEq, and_true]
  omega

theorem toNat_valid (c : Char) : c.toNat < 0xd800 ∨ 0xdfff < c.toNat ∧ c.toNat < 0x110000 := c.valid

/-- A code unit that is half of no surrogate pair is read as the character. -/
theorem scanChar_unit {c : Char} (hc : c.toNat < 0x10000) (rest : List Char) :
    scanChar (unitEscape c.toNat ++ rest) = some (c, rest) := by
  have hkeep : c.toNat < 0xd800 ∨ 0xdfff < c.toNat := (toNat_valid c).imp_right And.left
  have hscan := scanUnit_hex hc rest
  simp only [unitEscape, List.cons_append, scanChar, scanEscape, hscan, Option.bind_eq_bind, Option.bind_some,
    if_pos hkeep, Char.ofNat_toNat, Option.pure_def]

/-- The halves of a surrogate pair are read as the character they stand for. -/
theorem scanChar_pair {n : Nat} (hn : n < 0x100000) (rest : List Char) :
    scanChar (unitEscape (0xd800 + n / 0x400) ++ unitEscape (0xdc00 + n % 0x400) ++ rest) =
      some (Char.ofNat (0x10000 + n), rest) := by
  have hhigh : n / 0x400 < 0x400 := by omega
  have hlow : n % 0x400 < 0x400 := by omega
  have hsum : n / 0x400 * 0x400 + n % 0x400 = n := by omega
  generalize n / 0x400 = high at hhigh hsum ⊢
  generalize n % 0x400 = low at hlow hsum ⊢
  have hfirst : ¬(0xd800 + high < 0xd800 ∨ 0xdfff < 0xd800 + high) := by omega
  have hsecond : ¬0xdbff < 0xd800 + high := by omega
  have hthird : 0xdc00 ≤ 0xdc00 + low ∧ 0xdc00 + low ≤ 0xdfff := by omega
  have hscan : ∀ k rest, k < 0x10000 → scanUnit (hex 4 k ++ rest) = some (k, rest) := fun _ rest hk => scanUnit_hex hk rest
  simp only [unitEscape, List.cons_append, List.append_assoc, scanChar, scanEscape]
  rw [hscan _ _ (by omega)]
  simp only [Option.bind_eq_bind, Option.bind_some, if_neg hfirst, if_neg hsecond]
  rw [hscan _ _ (by omega)]
  simp only [Option.bind_some, if_pos hthird, Option.pure_def, Nat.add_sub_cancel_left, hsum]

/-- An escaped character is read back. -/
theorem scanChar_asciiEscape (c : Char) (rest : List Char) : scanChar (asciiEscape c ++ rest) = some (c, rest) := by
  unfold asciiEscape
  split_ifs with hquote hslash hn hr ht hb hf hplain hunit
  · rw [hquote]
    rfl
  · rw [hslash]
    rfl
  · rw [hn]
    rfl
  · rw [hr]
    rfl
  · rw [ht]
    rfl
  · rw [hb]
    rfl
  · rw [hf]
    rfl
  · rw [List.singleton_append, scanChar, if_neg (Nat.not_lt.mpr hplain.1)]
    exact hslash
  · exact scanChar_unit hunit rest
  · have hvalid := toNat_valid c
    have hsum : 0x10000 + (c.toNat - 0x10000) = c.toNat := Nat.add_sub_of_le (Nat.not_lt.mp hunit)
    rw [scanChar_pair (by omega), hsum, Char.ofNat_toNat]

/-- What an escaped character starts with ends no string. -/
theorem asciiEscape_head (c : Char) : ∃ d ds, asciiEscape c = d :: ds ∧ d ≠ '"' := by
  unfold asciiEscape
  split_ifs with hquote
  all_goals first
    | exact ⟨_, _, rfl, by decide⟩
    | exact ⟨_, _, rfl, hquote⟩

theorem scanString_escape (n : Nat) (c : Char) (rest : List Char) :
    scanString (n + 1) (asciiEscape c ++ rest) = (scanString n rest).map fun (s, rest) => (c :: s, rest) := by
  have hscan := scanChar_asciiEscape c rest
  obtain ⟨d, ds, hhead, hd⟩ := asciiEscape_head c
  rw [hhead, List.cons_append] at hscan ⊢
  rw [scanString, hscan]
  · simp only [Option.bind_eq_bind, Option.bind_some]
    cases scanString n rest <;> rfl
  · rintro _ ⟨⟩
    exact hd rfl

theorem scanString_quote {n : Nat} {s : List Char} (hn : s.length ≤ n) (rest : List Char) :
    scanString n (s.flatMap asciiEscape ++ '"' :: rest) = some (s, rest) := by
  induction s generalizing n with
  | nil => cases n <;> rfl
  | cons c s ih =>
      obtain ⟨n, rfl⟩ : ∃ m, n = m + 1 := ⟨n - 1, by simp only [List.length_cons] at hn; omega⟩
      rw [List.flatMap_cons, List.append_assoc, scanString_escape, ih (Nat.le_of_succ_le_succ hn)]
      rfl

/-! ### Numbers are read back -/

/-- What follows a value inside a text. -/
def Stops (rest : List Char) : Prop := ∀ c ∈ rest.head?, c ∈ [',', ']', '}']

theorem Stops.head_ne {c : Char} {rest : List Char} (h : Stops (c :: rest)) {d : Char} (hd : d ∉ [',', ']', '}']) :
    c ≠ d := by
  intro hcd
  exact hd (hcd ▸ h c rfl)

theorem Stops.not_digit {rest : List Char} (h : Stops rest) : ∀ c ∈ rest.head?, c.isDigit = false := by
  intro c hc
  have hdelimiters : ([',', ']', '}'].all fun d => !d.isDigit) = true := by decide
  simpa using List.all_eq_true.mp hdelimiters c (h c hc)

theorem span_append {p : Char → Bool} (cs : List Char) {rest : List Char} (h : ∀ c ∈ rest.head?, p c = false) :
    (cs ++ rest).takeWhile p = cs.takeWhile p ∧ (cs ++ rest).dropWhile p = cs.dropWhile p ++ rest := by
  induction cs with
  | nil =>
      cases rest with
      | nil => exact ⟨rfl, rfl⟩
      | cons c rest => simp [h c rfl]
  | cons c cs ih =>
      by_cases hc : p c = true
      · simp [hc, ih]
      · simp [hc]

section Append

variable {cs ds r rest : List Char}

theorem naturalPart_append (h : naturalPart cs = some (ds, r)) (hrest : Stops rest) :
    naturalPart (cs ++ rest) = some (ds, r ++ rest) := by
  unfold naturalPart at h
  split at h
  · cases h
    rfl
  next c cs hzero =>
    obtain ⟨htake, hdrop⟩ := span_append cs hrest.not_digit
    rw [List.cons_append, naturalPart, htake, hdrop]
    · split_ifs at h ⊢
      cases h
      rfl
    · exact hzero
  · cases h

theorem integerPart_append (h : integerPart cs = some (ds, r)) (hrest : Stops rest) :
    integerPart (cs ++ rest) = some (ds, r ++ rest) := by
  cases cs with
  | nil => cases h
  | cons c cs =>
      by_cases hminus : c = '-'
      · subst hminus
        obtain ⟨⟨ds, r⟩, hnatural, hvalue⟩ := Option.map_eq_some_iff.mp h
        cases hvalue
        rw [List.cons_append, integerPart, naturalPart_append hnatural hrest]
        rfl
      · have hplain : ∀ cs, integerPart (c :: cs) = naturalPart (c :: cs) := fun cs => by
          rw [integerPart]
          exact fun _ hcons => hminus (List.cons.inj hcons).1
        rw [hplain] at h
        rw [List.cons_append, hplain, ← List.cons_append, naturalPart_append h hrest]

theorem digitsAfter_append (start cs : List Char) (hrest : Stops rest) :
    digitsAfter start (cs ++ rest) = (digitsAfter start cs).map fun (ds, r) => (ds, r ++ rest) := by
  obtain ⟨htake, hdrop⟩ := span_append cs hrest.not_digit
  rw [digitsAfter, digitsAfter, htake, hdrop]
  cases cs.takeWhile Char.isDigit <;> rfl

/-- An optional part of a number does not depend on what follows the number. -/
theorem getD_append {o o' : Option (List Char × List Char)}
    (ho : o' = o.map fun (ds, r) => (ds, r ++ rest)) (cs : List Char) :
    o'.getD ([], cs ++ rest) = ((o.getD ([], cs)).1, (o.getD ([], cs)).2 ++ rest) := by
  rw [ho]
  cases o <;> rfl

theorem fractionPart_append (cs : List Char) (hrest : Stops rest) :
    fractionPart (cs ++ rest) = ((fractionPart cs).1, (fractionPart cs).2 ++ rest) := by
  refine getD_append ?_ cs
  cases cs with
  | nil =>
      cases rest with
      | nil => rfl
      | cons c rest =>
          have hpoint : c ≠ '.' := hrest.head_ne (by decide)
          simp [hpoint]
  | cons c cs =>
      by_cases hpoint : c = '.'
      · subst hpoint
        exact digitsAfter_append _ _ hrest
      · simp [hpoint]

theorem exponentPart_append (cs : List Char) (hrest : Stops rest) :
    exponentPart (cs ++ rest) = ((exponentPart cs).1, (exponentPart cs).2 ++ rest) := by
  refine getD_append ?_ cs
  cases cs with
  | nil =>
      cases rest with
      | nil => rfl
      | cons c rest =>
          have hlower : c ≠ 'e' := hrest.head_ne (by decide)
          have hupper : c ≠ 'E' := hrest.head_ne (by decide)
          simp [hlower, hupper]
  | cons c cs =>
      by_cases hletter : c = 'e' ∨ c = 'E'
      · simp only [List.cons_append, if_pos hletter]
        cases cs with
        | nil =>
            have hnone := digitsAfter_append [c] [] hrest
            cases rest with
            | nil => exact hnone
            | cons d rest =>
                have hminus : d ≠ '-' := hrest.head_ne (by decide)
                have hplus : d ≠ '+' := hrest.head_ne (by decide)
                simpa [hminus, hplus] using hnone
        | cons d cs =>
            by_cases hminus : d = '-'
            · subst hminus
              exact digitsAfter_append _ _ hrest
            · by_cases hplus : d = '+'
              · subst hplus
                exact digitsAfter_append _ _ hrest
              · simpa [hminus, hplus] using digitsAfter_append [c] (d :: cs) hrest
      · simp [hletter]

theorem numberParts_append {parts : List Char × List Char × List Char} (h : numberParts cs = some (parts, r))
    (hrest : Stops rest) : numberParts (cs ++ rest) = some (parts, r ++ rest) := by
  obtain ⟨⟨integer, r₁⟩, hinteger, h⟩ := Option.bind_eq_some_iff.mp h
  simp only [Option.pure_def, Option.some.injEq, Prod.mk.injEq] at h
  obtain ⟨rfl, rfl⟩ := h
  simp only [numberParts, integerPart_append hinteger hrest, fractionPart_append _ hrest, exponentPart_append _ hrest,
    Option.bind_eq_bind, Option.bind_some, Option.pure_def]

theorem scanNumber_append {float_of : List Char → Json} {j : Json} (h : scanNumber float_of cs = .ok (j, r))
    (hrest : Stops rest) : scanNumber float_of (cs ++ rest) = .ok (j, r ++ rest) := by
  obtain ⟨⟨⟨integer, fraction, exponent⟩, r₁⟩, hparts, h⟩ := bind_eq_ok.mp h
  rw [scanNumber, numberParts_append (expect_eq_ok.mp hparts) hrest]
  by_cases hint : (fraction.isEmpty && exponent.isEmpty) = true
  · simp only [if_pos hint] at h
    obtain ⟨n, hn, h⟩ := bind_eq_ok.mp h
    cases h
    simp only [expect, ok_bind, if_pos hint, hn]
    rfl
  · simp only [if_neg hint] at h
    cases h
    simp only [expect, ok_bind, if_neg hint]
    rfl

end Append

/-- A character of a number. -/
def isNumberChar (c : Char) : Bool := c.isDigit || c ∈ ['-', '+', '.', 'e', 'E']

/-- Characters of a number that have been read from the front of a text. -/
def Consumed (cs ds r : List Char) : Prop := cs = ds ++ r ∧ ∀ c ∈ ds, isNumberChar c = true

section Consumed

variable {cs ds r : List Char}

theorem consumed_digits (cs : List Char) : Consumed cs (cs.takeWhile Char.isDigit) (cs.dropWhile Char.isDigit) := by
  refine ⟨(List.takeWhile_append_dropWhile ..).symm, fun c hc => ?_⟩
  rw [isNumberChar, List.mem_takeWhile_imp hc, Bool.true_or]

theorem Consumed.cons (h : Consumed cs ds r) {c : Char} (hc : isNumberChar c = true) :
    Consumed (c :: cs) (c :: ds) r :=
  ⟨congrArg (List.cons c) h.1, List.forall_mem_cons.mpr ⟨hc, h.2⟩⟩

theorem Consumed.append {ds' r' : List Char} (h : Consumed cs ds r) (h' : Consumed r ds' r') :
    Consumed cs (ds ++ ds') r' := by
  refine ⟨by rw [h.1, h'.1, List.append_assoc], fun c hc => ?_⟩
  exact (List.mem_append.mp hc).elim (h.2 c) (h'.2 c)

theorem consumed_naturalPart (h : naturalPart cs = some (ds, r)) : Consumed cs ds r ∧ ds ≠ [] := by
  unfold naturalPart at h
  split at h
  next cs =>
    cases h
    exact ⟨Consumed.cons ⟨rfl, List.forall_mem_nil _⟩ rfl, by simp⟩
  next c cs _ =>
    split_ifs at h with hdigit
    cases h
    exact ⟨(consumed_digits cs).cons (by rw [isNumberChar, hdigit, Bool.true_or]), by simp⟩
  · cases h

theorem consumed_integerPart (h : integerPart cs = some (ds, r)) : Consumed cs ds r ∧ ds ≠ [] := by
  unfold integerPart at h
  split at h
  · obtain ⟨⟨ds, r⟩, hnatural, hvalue⟩ := Option.map_eq_some_iff.mp h
    cases hvalue
    exact ⟨(consumed_naturalPart hnatural).1.cons rfl, by simp⟩
  · exact consumed_naturalPart h

theorem consumed_digitsAfter (start : List Char) (hstart : ∀ c ∈ start, isNumberChar c = true)
    (h : digitsAfter start cs = some (ds, r)) : Consumed (start ++ cs) ds r := by
  have hdigits := consumed_digits cs
  unfold digitsAfter at h
  split at h
  · cases h
  · cases h
    exact Consumed.append (r := cs) ⟨rfl, hstart⟩ hdigits

/-- An optional part has consumed what it has read, or nothing. -/
theorem consumed_getD {o : Option (List Char × List Char)} (h : ∀ ds r, o = some (ds, r) → Consumed cs ds r) :
    Consumed cs (o.getD ([], cs)).1 (o.getD ([], cs)).2 := by
  cases o with
  | none => exact ⟨rfl, by simp⟩
  | some p => exact h p.1 p.2 rfl

theorem consumed_fractionPart (cs : List Char) : Consumed cs (fractionPart cs).1 (fractionPart cs).2 := by
  refine consumed_getD fun ds r h => ?_
  split at h
  · exact consumed_digitsAfter ['.'] (by simp [isNumberChar]) h
  · cases h

theorem consumed_exponentPart (cs : List Char) : Consumed cs (exponentPart cs).1 (exponentPart cs).2 := by
  refine consumed_getD fun ds r h => ?_
  split at h
  next c rest =>
    split_ifs at h with hletter
    have hc : isNumberChar c = true := by
      rcases hletter with rfl | rfl <;> rfl
    split at h
    · exact consumed_digitsAfter [c, '-']
        (List.forall_mem_cons.mpr ⟨hc, by simp [isNumberChar]⟩) h
    · exact consumed_digitsAfter [c, '+']
        (List.forall_mem_cons.mpr ⟨hc, by simp [isNumberChar]⟩) h
    · exact consumed_digitsAfter [c] (by simp [hc]) h
  · cases h

/-- A text that is a number has characters of a number only, and has one. -/
theorem number_of_scanNumber {float_of : List Char → Json} {j : Json} (h : scanNumber float_of cs = .ok (j, [])) :
    (∀ c ∈ cs, isNumberChar c = true) ∧ cs ≠ [] := by
  obtain ⟨⟨⟨integer, fraction, exponent⟩, r⟩, hparts, h⟩ := bind_eq_ok.mp h
  have hr : r = [] := by
    by_cases hint : (fraction.isEmpty && exponent.isEmpty) = true
    · simp only [if_pos hint] at h
      obtain ⟨n, -, h⟩ := bind_eq_ok.mp h
      cases h
      rfl
    · simp only [if_neg hint] at h
      cases h
      rfl
  obtain ⟨⟨integer', r₁⟩, hinteger, hrest⟩ := Option.bind_eq_some_iff.mp (expect_eq_ok.mp hparts)
  simp only [Option.pure_def, Option.some.injEq, Prod.mk.injEq] at hrest
  obtain ⟨⟨rfl, rfl, rfl⟩, rfl⟩ := hrest
  obtain ⟨hconsumed, hne⟩ := consumed_integerPart hinteger
  have hall := (hconsumed.append (consumed_fractionPart r₁)).append (consumed_exponentPart (fractionPart r₁).2)
  rw [hr] at hall
  refine ⟨?_, ?_⟩
  · rw [hall.1, List.append_nil]
    exact hall.2
  · rw [hconsumed.1]
    exact fun hnil => hne (List.append_eq_nil_iff.mp hnil).1

end Consumed

/-- The digits of a number that is not zero do not start with a zero. -/
theorem toDigits_head {n : Nat} (hn : 0 < n) : ∃ c cs, Nat.toDigits 10 n = c :: cs ∧ c ≠ '0' := by
  induction n using Nat.strongRecOn with
  | ind n ih =>
      by_cases hsmall : n < 10
      · have hdigit : ∀ d < 10, 0 < d → Nat.digitChar d ≠ '0' := by decide
        exact ⟨_, _, Nat.toDigits_of_lt_base hsmall, hdigit n hsmall hn⟩
      · obtain ⟨c, cs, hhead, hc⟩ := ih (n / 10) (by omega) (by omega)
        refine ⟨c, cs ++ [Nat.digitChar (n % 10)], ?_, hc⟩
        rw [Nat.toDigits_of_base_le (by decide) (Nat.not_lt.mp hsmall), hhead, List.cons_append]

theorem naturalPart_toDigits (n : Nat) : naturalPart (Nat.toDigits 10 n) = some (Nat.toDigits 10 n, []) := by
  rcases Nat.eq_zero_or_pos n with rfl | hn
  · rfl
  · obtain ⟨c, cs, hdigits, hc⟩ := toDigits_head hn
    have hall : ∀ d ∈ c :: cs, d.isDigit = true := fun d hd =>
      Nat.isDigit_of_mem_toDigits (by decide) (by decide) (hdigits ▸ hd)
    obtain ⟨hfirst, hrest⟩ := List.forall_mem_cons.mp hall
    have htake : cs.takeWhile Char.isDigit = cs := List.takeWhile_eq_self_iff.mpr hrest
    have hdrop : cs.dropWhile Char.isDigit = [] := List.dropWhile_eq_nil_iff.mpr hrest
    rw [hdigits, naturalPart, if_pos hfirst, htake, hdrop]
    exact hc

/-- An integer that is short enough is read back. -/
theorem scanNumber_int (float_of : List Char → Json) {n : Int} (hshort : (Json.int n).short = true) :
    scanNumber float_of (toString n).toList = .ok (.int n, []) := by
  have hlength : (Nat.toDigits 10 n.natAbs).length ≤ maxDigits := of_decide_eq_true hshort
  have hparts : ∀ ds, integerPart (toString n).toList = some (ds, []) → intOf ds = .ok n →
      scanNumber float_of (toString n).toList = .ok (.int n, []) := by
    intro ds hinteger hvalue
    have hfraction : fractionPart [] = ([], []) := rfl
    have hexponent : exponentPart [] = ([], []) := rfl
    simp only [scanNumber, numberParts, expect, hinteger, hvalue, hfraction, hexponent, Option.bind_eq_bind,
      Option.bind_some, Option.pure_def, ok_bind, List.isEmpty_nil, Bool.and_self, if_true]
    rfl
  have hminus : '-' ∉ Nat.toDigits 10 n.natAbs := fun hmem =>
    absurd (Nat.isDigit_of_mem_toDigits (by decide) (by decide) hmem) (by decide)
  cases n with
  | ofNat n =>
      have hlength' : (Nat.toDigits 10 n).length ≤ maxDigits := hlength
      have htext : (toString (Int.ofNat n)).toList = Nat.toDigits 10 n := Nat.toList_repr
      rw [htext] at hparts ⊢
      refine hparts (Nat.toDigits 10 n) ?_ ?_
      · rw [integerPart]
        · exact naturalPart_toDigits n
        · intro cs hcs
          exact hminus (hcs ▸ List.mem_cons_self)
      · rw [intOf, if_pos hlength', Nat.ofDigitChars_ten_toDigits]
        · rfl
        · intro cs hcs
          exact hminus (hcs ▸ List.mem_cons_self)
  | negSucc n =>
      have hlength' : (Nat.toDigits 10 (n + 1)).length ≤ maxDigits := hlength
      have htext : (toString (Int.negSucc n)).toList = '-' :: Nat.toDigits 10 (n + 1) := by
        have hrepr : toString (Int.negSucc n) = "-" ++ Nat.repr (n + 1) := rfl
        rw [hrepr, String.toList_append, Nat.toList_repr]
        rfl
      rw [htext] at hparts ⊢
      refine hparts ('-' :: Nat.toDigits 10 (n + 1)) ?_ ?_
      · rw [integerPart, naturalPart_toDigits]
        rfl
      · rw [intOf, if_pos hlength', Nat.ofDigitChars_ten_toDigits]
        rfl

/-! ### Values are read back -/

mutual

/-- A value that JSON has a text for: floats are finite and read back from their `repr`, integers are
short enough to be converted, and the keys of an object are distinct. -/
def WellFormed (float_of : List Char → Json) : Json → Prop
  | .null | .bool _ | .string _ => True
  | .int n => (Json.int n).short = true
  | .float repr => scanNumber float_of repr.toList = .ok (.float repr, [])
  | .nonfinite => False
  | .array items => WellFormedItems float_of items
  | .object ms => (ms.map Prod.fst).Nodup ∧ WellFormedMembers float_of ms

def WellFormedItems (float_of : List Char → Json) : List Json → Prop
  | [] => True
  | j :: js => WellFormed float_of j ∧ WellFormedItems float_of js

def WellFormedMembers (float_of : List Char → Json) : List (String × Json) → Prop
  | [] => True
  | (_, j) :: ms => WellFormed float_of j ∧ WellFormedMembers float_of ms

end

/-- Distinct members are a `dict` as they are. -/
theorem dict_of_nodup {ms : List (String × Json)} (h : (ms.map Prod.fst).Nodup) : dict ms = ms := by
  have hfold : ∀ done : List (String × Json), ((done ++ ms).map Prod.fst).Nodup → ms.foldl assign done = done ++ ms := by
    clear h
    induction ms with
    | nil => exact fun done _ => (List.append_nil done).symm
    | cons m ms ih =>
        intro done hnodup
        have hnew : m.1 ∉ done.map Prod.fst := by
          rw [List.map_append, List.map_cons, List.nodup_append] at hnodup
          exact fun hmem => hnodup.2.2 m.1 hmem m.1 List.mem_cons_self rfl
        rw [List.foldl_cons, assign, if_neg hnew, ih (done ++ [m]) (by rwa [List.append_assoc]), List.append_assoc,
          List.singleton_append]
  exact hfold [] h

variable {float_of : List Char → Json}

/-- Blanks are skipped before a character only if it is one. -/
theorem skipBlank_cons {c : Char} (hc : c ∉ [' ', '\t', '\n', '\r']) (cs : List Char) : skipBlank (c :: cs) = c :: cs := by
  rw [skipBlank, List.dropWhile_cons_of_neg (by simpa using hc)]

/-- What a value starts with is no blank and does not end an array. -/
theorem write_head {j : Json} (h : WellFormed float_of j) :
    ∃ c cs, j.write = c :: cs ∧ c ∉ [' ', '\t', '\n', '\r'] ∧ c ≠ ']' := by
  have hnumber : ∀ cs : List Char, (∀ c ∈ cs, isNumberChar c = true) ∧ cs ≠ [] →
      ∃ c cs', cs = c :: cs' ∧ c ∉ [' ', '\t', '\n', '\r'] ∧ c ≠ ']' := by
    intro cs ⟨hall, hne⟩
    obtain ⟨c, cs, rfl⟩ := List.exists_cons_of_ne_nil hne
    have hc := hall c List.mem_cons_self
    refine ⟨c, cs, rfl, fun hblank => ?_, fun hbracket => ?_⟩
    · have hblanks : ([' ', '\t', '\n', '\r'].all fun d => !isNumberChar d) = true := by decide
      have hnot := List.all_eq_true.mp hblanks c hblank
      rw [hc] at hnot
      cases hnot
    · rw [hbracket] at hc
      cases hc
  cases j with
  | null => exact ⟨_, _, rfl, by decide, by decide⟩
  | bool b => cases b <;> exact ⟨_, _, rfl, by decide, by decide⟩
  | int n => exact hnumber _ (number_of_scanNumber (scanNumber_int float_of h))
  | float repr => exact hnumber _ (number_of_scanNumber h)
  | nonfinite => exact h.elim
  | string s => exact ⟨_, _, rfl, by decide, by decide⟩
  | array items => exact ⟨_, _, rfl, by decide, by decide⟩
  | object ms => exact ⟨_, _, rfl, by decide, by decide⟩

theorem scanOnce_number {cs rest : List Char} {j : Json} (h : scanNumber float_of cs = .ok (j, []))
    (hrest : Stops rest) (n : Nat) : scanOnce float_of (n + 1) (cs ++ rest) = .ok (j, rest) := by
  obtain ⟨hall, hne⟩ := number_of_scanNumber h
  have hscan := scanNumber_append h hrest
  obtain ⟨c, cs, rfl⟩ := List.exists_cons_of_ne_nil hne
  have hnot : ∀ d, isNumberChar d = false → c ≠ d := by
    rintro d hd rfl
    rw [hall c List.mem_cons_self] at hd
    cases hd
  rw [List.cons_append] at hscan ⊢
  have hconstant : scanConstant (c :: (cs ++ rest)) = none := by
    unfold scanConstant
    split
    next heq => exact absurd (List.cons.inj heq).1 (hnot _ rfl)
    next heq => exact absurd (List.cons.inj heq).1 (hnot _ rfl)
    next heq => exact absurd (List.cons.inj heq).1 (hnot _ rfl)
    · rfl
  obtain ⟨parts, hparts, -⟩ := bind_eq_ok.mp hscan
  have hsome : (numberParts (c :: (cs ++ rest))).isSome = true :=
    Option.isSome_iff_exists.mpr ⟨parts, expect_eq_ok.mp hparts⟩
  rw [scanOnce, hconstant]
  · simp only [if_pos hsome, hscan]
    rfl
  · exact fun _ heq => hnot _ rfl (List.cons.inj heq).1
  · exact fun _ heq => hnot _ rfl (List.cons.inj heq).1
  · exact fun _ heq => hnot _ rfl (List.cons.inj heq).1

/-- Joined texts begin with the first of them. -/
theorem exists_intercalate (t : List Char) (ts : List (List Char)) : ∃ tail, [','].intercalate (t :: ts) = t ++ tail := by
  cases ts with
  | nil => exact ⟨[], by simp⟩
  | cons u us => exact ⟨_, by rw [List.intercalate_cons_cons, List.append_assoc]⟩

theorem writeItems_head {x : Json} {xs : List Json} (h : WellFormedItems float_of (x :: xs)) :
    ∃ c cs, [','].intercalate (writeItems (x :: xs)) = c :: cs ∧ c ∉ [' ', '\t', '\n', '\r'] ∧ c ≠ ']' := by
  obtain ⟨c, cs, hx, hblank, hbracket⟩ := write_head h.1
  obtain ⟨tail, htail⟩ := exists_intercalate x.write (writeItems xs)
  exact ⟨c, cs ++ tail, by rw [writeItems, htail, hx, List.cons_append], hblank, hbracket⟩

theorem writeMembers_head (m : String × Json) (ms : List (String × Json)) :
    ∃ cs, [','].intercalate (writeMembers (m :: ms)) = '"' :: cs := by
  obtain ⟨tail, htail⟩ := exists_intercalate (asciiQuote m.1 ++ ':' :: m.2.write) (writeMembers ms)
  exact ⟨_, by rw [writeMembers, htail, asciiQuote]; rfl⟩

theorem length_le_escape (s : List Char) : s.length ≤ (s.flatMap asciiEscape).length := by
  induction s with
  | nil => exact Nat.le_refl _
  | cons c s ih =>
      obtain ⟨d, ds, hhead, -⟩ := asciiEscape_head c
      rw [List.flatMap_cons, hhead]
      simp only [List.length_cons, List.length_append]
      omega

theorem stops_cons {c : Char} (hc : c ∈ [',', ']', '}']) (rest : List Char) : Stops (c :: rest) := by
  intro d hd
  cases hd
  exact hc

mutual

/-- A value is read back from its text, whatever follows it. -/
theorem scanOnce_write (j : Json) (h : WellFormed float_of j) {n : Nat} (hn : j.write.length < n) {rest : List Char}
    (hrest : Stops rest) : scanOnce float_of n (j.write ++ rest) = .ok (j, rest) := by
  obtain ⟨n, rfl⟩ : ∃ m, n = m + 1 := ⟨n - 1, by omega⟩
  match j with
  | .null => rfl
  | .bool true => rfl
  | .bool false => rfl
  | .int i => exact scanOnce_number (scanNumber_int float_of h) hrest n
  | .float repr => exact scanOnce_number h hrest n
  | .string s =>
      have hs : s.toList.length ≤ n := by
        have hlength := length_le_escape s.toList
        simp only [write, asciiQuote, List.length_cons, List.length_append] at hn
        omega
      rw [write, asciiQuote, List.cons_append, List.append_assoc, scanOnce, List.singleton_append, scanString_quote hs]
      simp only [expect, Except.map, String.ofList_toList]
  | .array [] => rfl
  | .array (x :: xs) =>
      rw [write, enclose, List.length_cons, List.length_append, List.length_singleton] at hn
      have hscan := scanItems_write x xs h (n := n) (by omega) rest
      obtain ⟨c, cs, hcs, hblank, hbracket⟩ := writeItems_head h
      rw [write, enclose, List.cons_append, List.append_assoc, List.singleton_append, scanOnce]
      rw [hcs, List.cons_append] at hscan ⊢
      rw [skipBlank_cons hblank]
      split
      next heq => exact absurd (List.cons.inj heq).1 hbracket
      next => rw [hscan, Except.map]
  | .object [] => rfl
  | .object (m :: ms) =>
      rw [write, enclose, List.length_cons, List.length_append] at hn
      have hscan := scanMembers_write m ms h.2 (n := n) (by omega) rest
      obtain ⟨cs, hcs⟩ := writeMembers_head m ms
      rw [write, enclose, List.cons_append, List.append_assoc, List.singleton_append, scanOnce]
      rw [hcs, List.cons_append] at hscan ⊢
      rw [skipBlank_cons (by decide)]
      split
      next heq => exact absurd (List.cons.inj heq).1 (by decide)
      next =>
        rw [hscan, Except.map]
        simp only [dict_of_nodup h.1]
termination_by n

theorem scanItems_write (x : Json) (xs : List Json) (h : WellFormedItems float_of (x :: xs)) {n : Nat}
    (hn : ([','].intercalate (writeItems (x :: xs))).length + 1 < n) (rest : List Char) :
    scanItems float_of n ([','].intercalate (writeItems (x :: xs)) ++ ']' :: rest) = .ok (x :: xs, rest) := by
  obtain ⟨n, rfl⟩ : ∃ m, n = m + 1 := ⟨n - 1, by omega⟩
  match xs with
  | [] =>
      rw [writeItems, writeItems, List.intercalate_singleton] at hn ⊢
      have hstops : Stops (']' :: rest) := stops_cons (by decide) rest
      rw [scanItems, scanOnce_write x h.1 (by omega) hstops, ok_bind]
      simp only [skipBlank_cons (c := ']') (by decide)]
      rfl
  | y :: ys =>
      have hjoin : [','].intercalate (writeItems (x :: y :: ys)) =
          x.write ++ ',' :: [','].intercalate (writeItems (y :: ys)) := by
        rw [writeItems, writeItems, List.intercalate_cons_cons, List.append_assoc, List.singleton_append]
      rw [hjoin, List.length_append, List.length_cons] at hn
      have hstops : ∀ cs, Stops (',' :: cs) := fun cs => stops_cons (by decide) cs
      have hitems := scanItems_write y ys h.2 (n := n) (by omega) rest
      obtain ⟨c, cs, hcs, hblank, -⟩ := writeItems_head h.2
      rw [hjoin, List.append_assoc, List.cons_append, scanItems, scanOnce_write x h.1 (by omega) (hstops _), ok_bind]
      rw [hcs, List.cons_append] at hitems ⊢
      simp only [skipBlank_cons (c := ',') (by decide), skipBlank_cons hblank, hitems]
      rfl
termination_by n

theorem scanMembers_write (m : String × Json) (ms : List (String × Json)) (h : WellFormedMembers float_of (m :: ms))
    {n : Nat} (hn : ([','].intercalate (writeMembers (m :: ms))).length < n) (rest : List Char) :
    scanMembers float_of n ([','].intercalate (writeMembers (m :: ms)) ++ '}' :: rest) = .ok (m :: ms, rest) := by
  obtain ⟨n, rfl⟩ : ∃ m, n = m + 1 := ⟨n - 1, by omega⟩
  obtain ⟨k, j⟩ := m
  have hkey : ∀ cs, asciiQuote k ++ ':' :: j.write ++ cs =
      '"' :: (k.toList.flatMap asciiEscape ++ '"' :: ':' :: (j.write ++ cs)) := by
    intro cs
    simp [asciiQuote]
  have hlength : (asciiQuote k ++ ':' :: j.write).length < n + 1 → k.toList.length ≤ n ∧ j.write.length < n := by
    intro hlt
    have hescape := length_le_escape k.toList
    simp only [asciiQuote, List.cons_append, List.append_assoc, List.length_cons, List.length_append, List.length_nil] at hlt
    omega
  have hblank : ∀ cs, skipBlank (j.write ++ cs) = j.write ++ cs := by
    intro cs
    obtain ⟨c, tail, hj, hc, -⟩ := write_head h.1
    rw [hj, List.cons_append, skipBlank_cons hc]
  match ms with
  | [] =>
      rw [writeMembers, writeMembers, List.intercalate_singleton] at hn ⊢
      have hstops : Stops ('}' :: rest) := stops_cons (by decide) rest
      obtain ⟨hk, hj⟩ := hlength hn
      rw [hkey, scanMembers, scanString_quote hk, expect, ok_bind]
      simp only [skipBlank_cons (c := ':') (by decide), hblank, scanOnce_write j h.1 hj hstops, ok_bind,
        skipBlank_cons (c := '}') (by decide), String.ofList_toList]
      rfl
  | m :: ms =>
      have hjoin : [','].intercalate (writeMembers ((k, j) :: m :: ms)) =
          (asciiQuote k ++ ':' :: j.write) ++ ',' :: [','].intercalate (writeMembers (m :: ms)) := by
        rw [writeMembers, writeMembers, List.intercalate_cons_cons, List.append_assoc, List.singleton_append]
      rw [hjoin, List.length_append, List.length_cons] at hn
      have hstops : ∀ cs, Stops (',' :: cs) := fun cs => stops_cons (by decide) cs
      have hmembers := scanMembers_write m ms h.2 (n := n) (by omega) rest
      obtain ⟨cs, hcs⟩ := writeMembers_head m ms
      obtain ⟨hk, hj⟩ := hlength (by omega)
      rw [hjoin, List.append_assoc, hkey, scanMembers, scanString_quote hk, expect, ok_bind]
      rw [hcs, List.cons_append] at hmembers
      simp only [skipBlank_cons (c := ':') (by decide), hblank, List.cons_append, hcs,
        scanOnce_write j h.1 hj (hstops _), ok_bind, skipBlank_cons (c := ',') (by decide),
        skipBlank_cons (c := '"') (by decide), hmembers, String.ofList_toList]
      rfl
termination_by n

end

theorem wellFormedItems_iff {items : List Json} :
    WellFormedItems float_of items ↔ ∀ j ∈ items, WellFormed float_of j := by
  induction items with
  | nil => simp [WellFormedItems]
  | cons j js ih => simp [WellFormedItems, ih]

theorem wellFormedMembers_iff {ms : List (String × Json)} :
    WellFormedMembers float_of ms ↔ ∀ m ∈ ms, WellFormed float_of m.2 := by
  induction ms with
  | nil => simp [WellFormedMembers]
  | cons m ms ih => simp [WellFormedMembers, ih]

mutual

/-- Sorting keeps a value well formed. -/
theorem wellFormed_sorted (j : Json) (h : WellFormed float_of j) : WellFormed float_of j.sorted := by
  match j with
  | .null | .bool _ | .string _ | .int _ | .float _ => exact h
  | .array items => exact wellFormed_sortedItems items h
  | .object ms =>
      have hperm := List.perm_insertionSort (fun a b => a.1 ≤ b.1) (sortedMembers ms)
      refine ⟨?_, ?_⟩
      · rw [(hperm.map Prod.fst).nodup_iff, sortedMembers_eq_map, List.map_map]
        exact h.1
      · have hmembers := wellFormedMembers_iff.mp (wellFormed_sortedMembers ms h.2)
        exact wellFormedMembers_iff.mpr fun m hm => hmembers m (hperm.mem_iff.mp hm)

theorem wellFormed_sortedItems (items : List Json) (h : WellFormedItems float_of items) :
    WellFormedItems float_of (sortedItems items) := by
  match items with
  | [] => exact h
  | j :: js => exact ⟨wellFormed_sorted j h.1, wellFormed_sortedItems js h.2⟩

theorem wellFormed_sortedMembers (ms : List (String × Json)) (h : WellFormedMembers float_of ms) :
    WellFormedMembers float_of (sortedMembers ms) := by
  match ms with
  | [] => exact h
  | (_, j) :: ms => exact ⟨wellFormed_sorted j h.1, wellFormed_sortedMembers ms h.2⟩

end

mutual

theorem short_of_wellFormed (j : Json) (h : WellFormed float_of j) : j.short = true := by
  match j with
  | .null | .bool _ | .string _ | .float _ => rfl
  | .int _ => exact h
  | .array items => exact short_of_wellFormedItems items h
  | .object ms => exact short_of_wellFormedMembers ms h.2

theorem short_of_wellFormedItems (items : List Json) (h : WellFormedItems float_of items) : shortItems items = true := by
  match items with
  | [] => rfl
  | j :: js => rw [shortItems, short_of_wellFormed j h.1, short_of_wellFormedItems js h.2, Bool.and_self]

theorem short_of_wellFormedMembers (ms : List (String × Json)) (h : WellFormedMembers float_of ms) :
    shortMembers ms = true := by
  match ms with
  | [] => rfl
  | (_, j) :: ms => rw [shortMembers, short_of_wellFormed j h.1, short_of_wellFormedMembers ms h.2, Bool.and_self]

end

theorem loads_write {j : Json} (h : WellFormed float_of j) : loads float_of j.write = .ok j := by
  obtain ⟨c, cs, hj, hblank, -⟩ := write_head h
  have hskip : skipBlank j.write = j.write := by rw [hj, skipBlank_cons hblank]
  have hstops : Stops [] := nofun
  have hscan := scanOnce_write j h (Nat.lt_succ_self _) hstops
  rw [List.append_nil] at hscan
  rw [loads, hskip, hscan]
  rfl

/-- **Texts.** The text of a value is read back as the value, its members sorted. -/
theorem loads_dumpsAscii {j : Json} (h : WellFormed float_of j) :
    ∃ text, dumpsAscii j = some text ∧ loads float_of text = .ok j.sorted := by
  refine ⟨j.sorted.write, ?_, loads_write (wellFormed_sorted j h)⟩
  rw [dumpsAscii, if_pos (short_of_wellFormed j h)]

/-! ### The text has no line breaks -/

/-- A printable ASCII character. -/
def Printable (c : Char) : Prop := 32 ≤ c.toNat ∧ c.toNat < 127

instance (c : Char) : Decidable (Printable c) := inferInstanceAs (Decidable (_ ∧ _))

theorem printable_unitEscape (n : Nat) : ∀ c ∈ unitEscape n, Printable c := by
  have hdigit : ∀ d < 16, Printable (Nat.digitChar d) := by decide
  have hhex : ∀ k n, ∀ c ∈ hex k n, Printable c := by
    intro k
    induction k with
    | zero => exact fun _ => nofun
    | succ k ih =>
        intro n c hc
        rw [hex, List.mem_append, List.mem_singleton] at hc
        rcases hc with hc | rfl
        · exact ih _ c hc
        · exact hdigit _ (Nat.mod_lt _ (by decide))
  exact List.forall_mem_cons.mpr ⟨by decide, List.forall_mem_cons.mpr ⟨by decide, hhex 4 n⟩⟩

theorem printable_asciiEscape (c : Char) : ∀ d ∈ asciiEscape c, Printable d := by
  have hpair : ∀ d : Char, Printable d → ∀ e ∈ ['\\', d], Printable e := fun d hd =>
    List.forall_mem_cons.mpr ⟨by decide, List.forall_mem_singleton.mpr hd⟩
  unfold asciiEscape
  split_ifs
  all_goals first
    | exact hpair _ (by decide)
    | exact List.forall_mem_singleton.mpr ‹_›
    | exact printable_unitEscape _
    | exact List.forall_mem_append.mpr ⟨printable_unitEscape _, printable_unitEscape _⟩

theorem printable_number {c : Char} (h : isNumberChar c = true) : Printable c := by
  rcases Bool.or_eq_true_iff.mp h with hdigit | hsign
  · simp only [Char.isDigit, Bool.and_eq_true, decide_eq_true_eq] at hdigit
    have hlow : 48 ≤ c.toNat := hdigit.1
    have hhigh : c.toNat ≤ 57 := hdigit.2
    exact ⟨by omega, by omega⟩
  · simp only [List.mem_cons, List.not_mem_nil, or_false, decide_eq_true_eq] at hsign
    rcases hsign with rfl | rfl | rfl | rfl | rfl <;> decide

theorem printable_asciiQuote (s : String) : ∀ c ∈ asciiQuote s, Printable c := by
  refine List.forall_mem_cons.mpr ⟨by decide, List.forall_mem_append.mpr ⟨fun c hc => ?_, ?_⟩⟩
  · obtain ⟨d, -, hd⟩ := List.mem_flatMap.mp hc
    exact printable_asciiEscape d c hd
  · exact List.forall_mem_singleton.mpr (by decide)

theorem printable_enclose {l r : Char} (hl : Printable l) (hr : Printable r) {ts : List (List Char)}
    (h : ∀ t ∈ ts, ∀ c ∈ t, Printable c) : ∀ c ∈ enclose l r ts, Printable c := by
  have hjoined : ∀ c ∈ [','].intercalate ts, Printable c := by
    induction ts with
    | nil => exact nofun
    | cons t ts ih =>
        obtain ⟨ht, hts⟩ := List.forall_mem_cons.mp h
        cases ts with
        | nil => simpa using ht
        | cons u us =>
            rw [List.intercalate_cons_cons]
            exact List.forall_mem_append.mpr ⟨List.forall_mem_append.mpr
              ⟨ht, List.forall_mem_singleton.mpr (by decide)⟩, ih hts⟩
  exact List.forall_mem_cons.mpr ⟨hl, List.forall_mem_append.mpr ⟨hjoined, List.forall_mem_singleton.mpr hr⟩⟩

mutual

theorem printable_write (j : Json) (h : WellFormed float_of j) : ∀ c ∈ j.write, Printable c := by
  match j with
  | .null => simp [write, Printable]
  | .bool true => simp [write, Printable]
  | .bool false => simp [write, Printable]
  | .int n => exact fun c hc => printable_number ((number_of_scanNumber (scanNumber_int float_of h)).1 c hc)
  | .float _ => exact fun c hc => printable_number ((number_of_scanNumber h).1 c hc)
  | .string s => exact printable_asciiQuote s
  | .array items => exact printable_enclose (by decide) (by decide) (printable_writeItems items h)
  | .object ms => exact printable_enclose (by decide) (by decide) (printable_writeMembers ms h.2)

theorem printable_writeItems (items : List Json) (h : WellFormedItems float_of items) :
    ∀ t ∈ writeItems items, ∀ c ∈ t, Printable c := by
  match items with
  | [] => exact nofun
  | j :: js => exact List.forall_mem_cons.mpr ⟨printable_write j h.1, printable_writeItems js h.2⟩

theorem printable_writeMembers (ms : List (String × Json)) (h : WellFormedMembers float_of ms) :
    ∀ t ∈ writeMembers ms, ∀ c ∈ t, Printable c := by
  match ms with
  | [] => exact nofun
  | (k, j) :: ms =>
      have hmember : ∀ c ∈ asciiQuote k ++ ':' :: j.write, Printable c :=
        List.forall_mem_append.mpr ⟨printable_asciiQuote k,
          List.forall_mem_cons.mpr ⟨by decide, printable_write j h.1⟩⟩
      exact List.forall_mem_cons.mpr ⟨hmember, printable_writeMembers ms h.2⟩

end

/-- The text of an object starts with one brace and ends with another. -/
theorem write_object (ms : List (String × Json)) : ∃ inner, (Json.object ms).write = '{' :: (inner ++ ['}']) :=
  ⟨_, rfl⟩

end Json
