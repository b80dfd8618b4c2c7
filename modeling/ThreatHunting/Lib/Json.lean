import Mathlib

/-!
# ThreatHunting.Lib.Json

JSON values and the text `json.dumps(…, ensure_ascii=False, sort_keys=True,
separators=(",", ":"), allow_nan=False)` writes for them. A finite float carries its
`repr`, which is all that the text needs of it.
-/

/-- A JSON value, as Python's parser returns it. -/
inductive Json
  | null
  | bool (b : Bool)
  | int (n : Int)
  | float (repr : String)
  | nonfinite
  | string (s : String)
  | array (items : List Json)
  | object (members : List (String × Json))
  deriving Inhabited

namespace Json

/-- The `n` least significant hexadecimal digits of `k`. -/
def hex : Nat → Nat → List Char
  | 0, _ => []
  | n + 1, k => hex n (k / 16) ++ [Nat.digitChar (k % 16)]

/-- One character of a JSON string literal. -/
def escape (c : Char) : List Char :=
  if c = '"' then ['\\', '"']
  else if c = '\\' then ['\\', '\\']
  else if c = '\n' then ['\\', 'n']
  else if c = '\r' then ['\\', 'r']
  else if c = '\t' then ['\\', 't']
  else if c = '\x08' then ['\\', 'b']
  else if c = '\x0c' then ['\\', 'f']
  else if c.toNat < 32 then '\\' :: 'u' :: hex 4 c.toNat
  else [c]

/-- A JSON string literal. -/
def quote (s : String) : List Char := '"' :: (s.toList.flatMap escape ++ ['"'])

/-- Members sorted by key, as `sort_keys` does. -/
def sortMembers (ms : List (String × List Char)) : List (String × List Char) :=
  ms.mergeSort fun a b => a.1 ≤ b.1

/-- Items between brackets, separated by commas. -/
def enclose (l r : Char) (items : List (List Char)) : List Char :=
  l :: ([','].intercalate items ++ [r])

mutual

/-- The canonical text of a value; `none` where `allow_nan=False` raises. -/
def canonical : Json → Option (List Char)
  | .null => some "null".toList
  | .bool true => some "true".toList
  | .bool false => some "false".toList
  | .int n => some (toString n).toList
  | .float repr => some repr.toList
  | .nonfinite => none
  | .string s => some (quote s)
  | .array items => (canonicalItems items).map (enclose '[' ']')
  | .object members => (canonicalMembers members).map fun ms =>
      enclose '{' '}' ((sortMembers ms).map fun m => quote m.1 ++ ':' :: m.2)

/-- The canonical texts of a list's items. -/
def canonicalItems : List Json → Option (List (List Char))
  | [] => some []
  | j :: js =>
      match canonical j, canonicalItems js with
      | some t, some ts => some (t :: ts)
      | _, _ => none

/-- The canonical texts of an object's members. -/
def canonicalMembers : List (String × Json) → Option (List (String × List Char))
  | [] => some []
  | (k, j) :: ms =>
      match canonical j, canonicalMembers ms with
      | some t, some ts => some ((k, t) :: ts)
      | _, _ => none

end

/-- The length of a text in UTF-8. -/
def utf8Length (cs : List Char) : Nat := (cs.map Char.utf8Size).sum

@[simp] theorem utf8Length_nil : utf8Length [] = 0 := rfl
@[simp] theorem utf8Length_cons (c : Char) (cs : List Char) :
    utf8Length (c :: cs) = c.utf8Size + utf8Length cs := by simp [utf8Length]
@[simp] theorem utf8Length_append (xs ys : List Char) :
    utf8Length (xs ++ ys) = utf8Length xs + utf8Length ys := by simp [utf8Length]

/-- Joining with a one-byte separator costs one byte between any two items. -/
theorem utf8Length_intercalate (items : List (List Char)) :
    utf8Length ([','].intercalate items) = (items.map utf8Length).sum + (items.length - 1) := by
  induction items with
  | nil => rfl
  | cons x xs ih =>
      cases xs with
      | nil => simp
      | cons y ys =>
          have hsep : Char.utf8Size ',' = 1 := by decide
          rw [List.intercalate_cons_cons, utf8Length_append, utf8Length_append, ih]
          simp only [utf8Length_cons, utf8Length_nil, hsep, List.map_cons, List.sum_cons,
            List.length_cons]
          omega

/-- Brackets cost one byte each. -/
theorem utf8Length_enclose {l r : Char} (hl : l.utf8Size = 1) (hr : r.utf8Size = 1) (items : List (List Char)) :
    utf8Length (enclose l r items) = 2 + (items.map utf8Length).sum + (items.length - 1) := by
  simp only [enclose, utf8Length_cons, utf8Length_append, utf8Length_nil, utf8Length_intercalate, hl, hr]
  omega

theorem canonicalItems_concat {items : List Json} {ts : List (List Char)} {j : Json} {t : List Char}
    (hs : canonicalItems items = some ts) (hj : canonical j = some t) :
    canonicalItems (items ++ [j]) = some (ts ++ [t]) := by
  induction items generalizing ts with
  | nil =>
      cases hs
      simp [canonicalItems, hj]
  | cons i items ih =>
      simp only [canonicalItems] at hs
      split at hs
      next u us hu hus =>
        cases hs
        simp [canonicalItems, hu, ih hus]
      next => cases hs

theorem length_canonicalItems {items : List Json} {ts : List (List Char)} (hs : canonicalItems items = some ts) :
    ts.length = items.length := by
  induction items generalizing ts with
  | nil =>
      cases hs
      rfl
  | cons i items ih =>
      simp only [canonicalItems] at hs
      split at hs
      next u us hu hus =>
        cases hs
        simp [ih hus]
      next => cases hs

/-- The bytes of the canonical text of a value, if it has one. -/
def canonicalSize (j : Json) : Option Nat := (canonical j).map utf8Length

theorem canonicalSize_nil : canonicalSize (.array []) = some 2 := by decide +kernel

/-- What one more item adds to an array: its own text, and a comma unless it is the first. -/
theorem canonicalSize_concat {items : List Json} {j : Json} {n : Nat} {t : List Char}
    (hn : canonicalSize (.array items) = some n) (hj : canonical j = some t) :
    canonicalSize (.array (items ++ [j])) = some (n + (utf8Length t + if items.isEmpty then 0 else 1)) := by
  have hl : Char.utf8Size '[' = 1 := by decide
  have hr : Char.utf8Size ']' = 1 := by decide
  simp only [canonicalSize, canonical, Option.map_map, Option.map_eq_some_iff, Function.comp_apply,
    utf8Length_enclose hl hr] at hn ⊢
  obtain ⟨ts, hs, rfl⟩ := hn
  refine ⟨ts ++ [t], canonicalItems_concat hs hj, ?_⟩
  have hlen := length_canonicalItems hs
  cases items with
  | nil =>
      cases hs
      simp
  | cons i items =>
      simp only [List.length_cons] at hlen
      simp only [List.map_append, List.map_cons, List.map_nil, List.sum_append, List.sum_cons, List.sum_nil,
        List.length_append, List.length_cons, List.length_nil, List.isEmpty_cons, Bool.false_eq_true, if_false]
      omega

/-! ### Equality -/

mutual

/-- Structural equality. -/
def beq : Json → Json → Bool
  | .null, .null | .nonfinite, .nonfinite => true
  | .bool a, .bool b => a == b
  | .int a, .int b => a == b
  | .float a, .float b => a == b
  | .string a, .string b => a == b
  | .array as, .array bs => beqItems as bs
  | .object as, .object bs => beqMembers as bs
  | _, _ => false

def beqItems : List Json → List Json → Bool
  | [], [] => true
  | a :: as, b :: bs => beq a b && beqItems as bs
  | _, _ => false

def beqMembers : List (String × Json) → List (String × Json) → Bool
  | [], [] => true
  | (k, a) :: as, (l, b) :: bs => k == l && beq a b && beqMembers as bs
  | _, _ => false

end

mutual

theorem beq_iff (a b : Json) : beq a b = true ↔ a = b := by
  match a with
  | .null | .nonfinite | .bool _ | .int _ | .float _ | .string _ => cases b <;> simp [beq]
  | .array as => cases b <;> simp [beq, beqItems_iff as]
  | .object as => cases b <;> simp [beq, beqMembers_iff as]

theorem beqItems_iff (as bs : List Json) : beqItems as bs = true ↔ as = bs := by
  match as with
  | [] => cases bs <;> simp [beqItems]
  | a :: as => cases bs <;> simp [beqItems, beq_iff a, beqItems_iff as]

theorem beqMembers_iff (as bs : List (String × Json)) : beqMembers as bs = true ↔ as = bs := by
  match as with
  | [] => cases bs <;> simp [beqMembers]
  | (k, a) :: as =>
      cases bs <;> simp [beqMembers, beq_iff a, beqMembers_iff as, Prod.ext_iff, and_assoc]

end

instance : DecidableEq Json := fun a b => decidable_of_iff (beq a b = true) (beq_iff a b)

/-! ### Values up to the order of members -/

mutual

/-- The value with the members of every object sorted by key. Two values have the same
`json.dumps(…, sort_keys=True)` exactly if they are the same sorted. -/
def sorted : Json → Json
  | .array items => .array (sortedItems items)
  | .object members => .object ((sortedMembers members).insertionSort fun a b => a.1 ≤ b.1)
  | j => j

def sortedItems : List Json → List Json
  | [] => []
  | j :: js => sorted j :: sortedItems js

def sortedMembers : List (String × Json) → List (String × Json)
  | [] => []
  | (k, j) :: ms => (k, sorted j) :: sortedMembers ms

end

theorem sortedMembers_eq_map (ms : List (String × Json)) : sortedMembers ms = ms.map fun m => (m.1, m.2.sorted) := by
  induction ms with
  | nil => rfl
  | cons m ms ih => rw [sortedMembers, ih, List.map_cons]

/-- Permuted lists whose keys are the same, each once, are the same. -/
theorem eq_of_perm_of_keys {α : Type} : ∀ {as bs : List (String × α)}, as.Perm bs →
    as.map Prod.fst = bs.map Prod.fst → (as.map Prod.fst).Nodup → as = bs
  | [], bs, hperm, _, _ => (List.nil_perm.mp hperm).symm
  | a :: as, [], hperm, _, _ => absurd hperm.eq_nil (List.cons_ne_nil a as)
  | a :: as, b :: bs, hperm, hkeys, hnodup => by
      obtain ⟨hkey, hrest⟩ := List.cons.inj hkeys
      have hfirst : a = b := by
        rcases List.mem_cons.mp (hperm.subset List.mem_cons_self) with heq | hmem
        · exact heq
        · rw [hkeys, List.map_cons, List.nodup_cons, ← hkey] at hnodup
          exact absurd (List.mem_map_of_mem hmem) hnodup.1
      subst hfirst
      rw [eq_of_perm_of_keys hperm.cons_inv hrest (List.nodup_cons.mp hnodup).2]

/-- Objects that are the same sorted have the same members, sorted each. -/
theorem perm_of_sorted {ms ms' : List (String × Json)} (h : (object ms).sorted = (object ms').sorted) :
    (ms.map fun m => (m.1, m.2.sorted)).Perm (ms'.map fun m => (m.1, m.2.sorted)) := by
  rw [sorted, sorted, Json.object.injEq, sortedMembers_eq_map, sortedMembers_eq_map] at h
  refine (List.perm_insertionSort (fun a b => a.1 ≤ b.1) _).symm.trans ?_
  rw [h]
  exact List.perm_insertionSort _ _

/-- Objects with the same keys in the same order are the same sorted only if their members are. -/
theorem members_of_sorted {ms ms' : List (String × Json)} (h : (object ms).sorted = (object ms').sorted)
    (hkeys : ms.map Prod.fst = ms'.map Prod.fst) (hnodup : (ms.map Prod.fst).Nodup) :
    ms.map (fun m => (m.1, m.2.sorted)) = ms'.map fun m => (m.1, m.2.sorted) := by
  have hfst : ∀ ms : List (String × Json), (ms.map fun m => (m.1, m.2.sorted)).map Prod.fst = ms.map Prod.fst :=
    fun ms => by rw [List.map_map]; rfl
  exact eq_of_perm_of_keys (perm_of_sorted h) (by rw [hfst, hfst, hkeys]) (by rwa [hfst])

/-! ### Sizes -/

/-- The bytes of a string literal. -/
def textBytes (s : String) : Nat := utf8Length (quote s)

/-- A text without characters that are escaped or take more than a byte. -/
theorem textBytes_of_plain {s : String} (h : ∀ c ∈ s.toList, escape c = [c] ∧ c.utf8Size = 1) :
    textBytes s = s.toList.length + 2 := by
  have hquote : Char.utf8Size '"' = 1 := by decide
  have hbytes : ∀ cs : List Char, (∀ c ∈ cs, escape c = [c] ∧ c.utf8Size = 1) →
      utf8Length (cs.flatMap escape) = cs.length := by
    intro cs hcs
    induction cs with
    | nil => rfl
    | cons c cs ih =>
        obtain ⟨⟨hescape, hsize⟩, hrest⟩ := List.forall_mem_cons.mp hcs
        rw [List.flatMap_cons, utf8Length_append, ih hrest, hescape, utf8Length_cons, hsize, List.length_cons]
        exact Nat.add_comm _ _
  rw [textBytes, quote, utf8Length_cons, utf8Length_append, hbytes _ h, utf8Length_cons, hquote, utf8Length_nil]
  omega

/-- The bytes of members, without brackets and commas. -/
def memberBytes : List (String × Json) → Option Nat
  | [] => some 0
  | (k, j) :: ms => do return (textBytes k + 1 + (← canonicalSize j)) + (← memberBytes ms)

@[simp] theorem canonicalSize_null : canonicalSize .null = some 4 := by decide +kernel

@[simp] theorem canonicalSize_string (s : String) : canonicalSize (.string s) = some (textBytes s) := rfl

theorem canonicalMembers_bytes (ms : List (String × Json)) :
    (canonicalMembers ms).map (fun ts => (ts.map fun t => textBytes t.1 + 1 + utf8Length t.2).sum) = memberBytes ms := by
  induction ms with
  | nil => rfl
  | cons m ms ih =>
      obtain ⟨k, j⟩ := m
      rw [memberBytes, ← ih, canonicalMembers, canonicalSize]
      cases canonical j <;> cases canonicalMembers ms <;> rfl

theorem length_canonicalMembers {ms : List (String × Json)} {ts : List (String × List Char)}
    (h : canonicalMembers ms = some ts) : ts.length = ms.length := by
  induction ms generalizing ts with
  | nil =>
      cases h
      rfl
  | cons m ms ih =>
      obtain ⟨k, j⟩ := m
      simp only [canonicalMembers] at h
      split at h
      next t rest _ hrest =>
        cases h
        simp [ih hrest]
      next => cases h

/-- The bytes of an object are those of its members, in whatever order they are written. -/
theorem canonicalSize_object (ms : List (String × Json)) :
    canonicalSize (.object ms) = (memberBytes ms).map fun n => 2 + n + (ms.length - 1) := by
  have hl : Char.utf8Size '{' = 1 := by decide
  have hr : Char.utf8Size '}' = 1 := by decide
  have hcolon : Char.utf8Size ':' = 1 := by decide
  have hbytes : (fun t : String × List Char => textBytes t.1 + (1 + utf8Length t.2)) =
      fun t => textBytes t.1 + 1 + utf8Length t.2 := funext fun t => by omega
  rw [canonicalSize, canonical, ← canonicalMembers_bytes, Option.map_map, Option.map_map]
  cases hts : canonicalMembers ms with
  | none => rfl
  | some ts =>
      have hperm : (sortMembers ts).Perm ts := List.mergeSort_perm _ _
      have hsum := (hperm.map fun t => textBytes t.1 + 1 + utf8Length t.2).sum_eq
      simp only [Option.map_some, utf8Length_enclose hl hr, List.map_map, List.length_map,
        hperm.length_eq, length_canonicalMembers hts, Function.comp_def, utf8Length_append, utf8Length_cons, hcolon]
      rw [← hsum, ← hbytes]
      rfl

/-- The bytes of an array are those of its items. -/
theorem canonicalSize_array_map {α : Type} {f : α → Json} {size : α → Nat} {as : List α}
    (h : ∀ a ∈ as, canonicalSize (f a) = some (size a)) :
    canonicalSize (.array (as.map f)) = some (2 + (as.map size).sum + (as.length - 1)) := by
  have hl : Char.utf8Size '[' = 1 := by decide
  have hr : Char.utf8Size ']' = 1 := by decide
  have hitems : ∃ ts, canonicalItems (as.map f) = some ts ∧ ts.map utf8Length = as.map size := by
    induction as with
    | nil => exact ⟨[], rfl, rfl⟩
    | cons a as ih =>
        obtain ⟨ha, hrest⟩ := List.forall_mem_cons.mp h
        obtain ⟨ts, hts, hsizes⟩ := ih hrest
        obtain ⟨t, ht, hsize⟩ := Option.map_eq_some_iff.mp ha
        exact ⟨t :: ts, by simp [canonicalItems, ht, hts], by simp [hsize, hsizes]⟩
  obtain ⟨ts, hts, hsizes⟩ := hitems
  have hlength : ts.length = as.length := by simpa using congrArg List.length hsizes
  rw [canonicalSize, canonical, hts, Option.map_some, Option.map_some, utf8Length_enclose hl hr, hsizes, hlength]

/-! ### Other texts -/

mutual

/-- The text of a value with `ensure_ascii=False`, members in their order, with these separators. A value does
not say which non-finite float it is. -/
def written (item key : List Char) : Json → List Char
  | .null => "null".toList
  | .bool true => "true".toList
  | .bool false => "false".toList
  | .int n => (toString n).toList
  | .float repr => repr.toList
  | .nonfinite => "NaN".toList
  | .string s => quote s
  | .array items => '[' :: (item.intercalate (writtenItems item key items) ++ [']'])
  | .object members => '{' :: (item.intercalate (writtenMembers item key members) ++ ['}'])

def writtenItems (item key : List Char) : List Json → List (List Char)
  | [] => []
  | j :: js => written item key j :: writtenItems item key js

def writtenMembers (item key : List Char) : List (String × Json) → List (List Char)
  | [] => []
  | (k, j) :: ms => (quote k ++ (key ++ written item key j)) :: writtenMembers item key ms

end

/-- `json.dumps(…, ensure_ascii=False)`. -/
def dumps (j : Json) : List Char := written [',', ' '] [':', ' '] j

/-- `json.dumps(…, ensure_ascii=False, separators=(",", ":"))`. -/
def compact (j : Json) : List Char := written [','] [':'] j

/-- The bytes of the default text of a value. -/
def dumpsSize (j : Json) : Nat := utf8Length (dumps j)

/-- The bytes of members in the default text, without brackets and separators. -/
def dumpsMemberBytes : List (String × Json) → Nat
  | [] => 0
  | (k, j) :: ms => (textBytes k + 2 + dumpsSize j) + dumpsMemberBytes ms

@[simp] theorem dumpsSize_null : dumpsSize .null = 4 := by decide +kernel

@[simp] theorem dumpsSize_string (s : String) : dumpsSize (.string s) = textBytes s := rfl

/-- Joining with a separator costs its bytes between any two items. -/
theorem utf8Length_intercalate_blank (items : List (List Char)) :
    utf8Length ([',', ' '].intercalate items) = (items.map utf8Length).sum + 2 * (items.length - 1) := by
  induction items with
  | nil => rfl
  | cons x xs ih =>
      cases xs with
      | nil => simp
      | cons y ys =>
          have hcomma : Char.utf8Size ',' = 1 := by decide
          have hblank : Char.utf8Size ' ' = 1 := by decide
          rw [List.intercalate_cons_cons, utf8Length_append, utf8Length_append, ih]
          simp only [utf8Length_cons, utf8Length_nil, hcomma, hblank, List.map_cons, List.sum_cons, List.length_cons]
          omega

theorem dumpsSize_object (ms : List (String × Json)) :
    dumpsSize (.object ms) = 2 + dumpsMemberBytes ms + 2 * (ms.length - 1) := by
  have hl : Char.utf8Size '{' = 1 := by decide
  have hr : Char.utf8Size '}' = 1 := by decide
  have hcolon : Char.utf8Size ':' = 1 := by decide
  have hblank : Char.utf8Size ' ' = 1 := by decide
  have hmembers : ((writtenMembers [',', ' '] [':', ' '] ms).map utf8Length).sum = dumpsMemberBytes ms ∧
      (writtenMembers [',', ' '] [':', ' '] ms).length = ms.length := by
    induction ms with
    | nil => exact ⟨rfl, rfl⟩
    | cons m ms ih =>
        obtain ⟨k, j⟩ := m
        simp only [writtenMembers, List.map_cons, List.sum_cons, List.length_cons, ih.1, ih.2, dumpsMemberBytes,
          utf8Length_append, utf8Length_cons, utf8Length_nil, hcolon, hblank, textBytes, dumpsSize, dumps, and_true]
        omega
  simp only [dumpsSize, dumps, written, utf8Length_cons, utf8Length_append, utf8Length_nil,
    utf8Length_intercalate_blank, hl, hr, hmembers.1, hmembers.2]
  omega

theorem dumpsSize_array_map {α : Type} (f : α → Json) (as : List α) :
    dumpsSize (.array (as.map f)) = 2 + (as.map (dumpsSize <| f ·)).sum + 2 * (as.length - 1) := by
  have hl : Char.utf8Size '[' = 1 := by decide
  have hr : Char.utf8Size ']' = 1 := by decide
  have hitems : writtenItems [',', ' '] [':', ' '] (as.map f) = as.map fun a => dumps (f a) := by
    induction as with
    | nil => rfl
    | cons a as ih => exact congrArg (dumps (f a) :: ·) ih
  simp only [dumpsSize, dumps, written, utf8Length_cons, utf8Length_append, utf8Length_nil,
    utf8Length_intercalate_blank, hl, hr, hitems, List.map_map, Function.comp_def, List.length_map]
  omega

end Json
