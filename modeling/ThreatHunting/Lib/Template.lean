import Mathlib

/-!
# ThreatHunting.Lib.Template

Replacing a pattern in a text, wherever it occurs, and filling the holes of a template by
replacing their markers one after the other. A value that has been filled in is scanned again for
every marker that is still to be replaced, so that the result is the template with the values in
its holes only if no value has the marker of a later hole in it.
-/

namespace Template

variable {α : Type}

/-! ### Occurrences -/

section Occurrences

variable {pattern s t text : List α} {c : α}

/-- A pattern does not reach over an element that it does not have. -/
theorem prefix_append_iff (hc : c ∉ pattern) : pattern <+: s ++ c :: t ↔ pattern <+: s := by
  constructor
  · intro h
    rcases Nat.lt_or_ge s.length pattern.length with hlong | hshort
    · have hs : s ++ [c] <+: s ++ c :: t := ⟨t, by simp⟩
      have hstart := List.prefix_of_prefix_length_le hs h (by simpa using hlong)
      exact absurd (hstart.subset (by simp)) hc
    · exact List.prefix_of_prefix_length_le h (List.prefix_append _ _) hshort
  · exact fun h => h.trans (List.prefix_append _ _)

theorem infix_append_iff (hc : c ∉ pattern) (hpattern : pattern ≠ []) :
    pattern <:+: s ++ c :: t ↔ pattern <:+: s ∨ pattern <:+: t := by
  induction s with
  | nil =>
      have hnil : ¬pattern <:+: [] := fun h => hpattern (List.infix_nil.mp h)
      have hhead : ¬pattern <+: c :: t := fun h => by
        have := (prefix_append_iff (s := []) (t := t) hc).mp h
        exact hpattern (List.prefix_nil.mp this)
      rw [List.nil_append, List.infix_cons_iff]
      simp [hnil, hhead]
  | cons a s ih =>
      rw [List.cons_append, List.infix_cons_iff, ih, ← List.cons_append, prefix_append_iff hc, List.infix_cons_iff,
        or_assoc]

/-- Elements a pattern does not have are skipped. -/
theorem infix_skip (hpattern : pattern ≠ []) {s : List α} (hs : ∀ d ∈ s, d ∉ pattern) (t : List α) :
    pattern <:+: s ++ t ↔ pattern <:+: t := by
  induction s with
  | nil => rfl
  | cons d s ih =>
      obtain ⟨hd, hs⟩ := List.forall_mem_cons.mp hs
      have hskip := infix_append_iff (s := []) (t := s ++ t) hd hpattern
      rw [List.nil_append, List.infix_nil, or_iff_right hpattern] at hskip
      rw [List.cons_append, hskip, ih hs]

/-- A text that begins and ends with elements no marker has, and has no marker in it. -/
def Inert (markers : List (List α)) (text : List α) : Prop :=
  (∃ c ∈ text.head?, ∀ m ∈ markers, c ∉ m) ∧ (∃ c ∈ text.getLast?, ∀ m ∈ markers, c ∉ m) ∧
    ∀ m ∈ markers, ¬m <:+: text

/-- Does a pattern occur in a text? -/
def occurs [DecidableEq α] (pattern : List α) : List α → Bool
  | [] => pattern.isEmpty
  | c :: text => pattern.isPrefixOf (c :: text) || occurs pattern text

theorem occurs_iff [DecidableEq α] (pattern text : List α) : occurs pattern text = true ↔ pattern <:+: text := by
  induction text with
  | nil => simp [occurs]
  | cons c text ih => rw [occurs, Bool.or_eq_true, List.isPrefixOf_iff_prefix, ih, List.infix_cons_iff]

instance [DecidableEq α] (markers : List (List α)) (text : List α) : Decidable (Inert markers text) :=
  decidable_of_iff ((∃ c ∈ text.head?, ∀ m ∈ markers, c ∉ m) ∧ (∃ c ∈ text.getLast?, ∀ m ∈ markers, c ∉ m) ∧
      ∀ m ∈ markers, occurs m text = false) <| by
    simp only [Inert, ← occurs_iff, Bool.not_eq_true]

theorem Inert.mono {markers markers' : List (List α)} {text : List α} (h : Inert markers text)
    (hsub : markers' ⊆ markers) : Inert markers' text := by
  obtain ⟨⟨c, hc, hfirst⟩, ⟨d, hd, hlast⟩, hnone⟩ := h
  exact ⟨⟨c, hc, fun m hm => hfirst m (hsub hm)⟩, ⟨d, hd, fun m hm => hlast m (hsub hm)⟩, fun m hm => hnone m (hsub hm)⟩

/-- A pattern occurs on one side of an inert text, or not at all. -/
theorem infix_inert (hinert : Inert [pattern] text) (hpattern : pattern ≠ []) (s t : List α) :
    pattern <:+: s ++ (text ++ t) ↔ pattern <:+: s ∨ pattern <:+: t := by
  obtain ⟨⟨c, hfirst, hc⟩, ⟨d, hlast, hd⟩, hnone⟩ := hinert
  simp only [List.mem_singleton, forall_eq] at hc hd hnone
  obtain ⟨tail, htail⟩ := List.head?_eq_some_iff.mp hfirst
  obtain ⟨init, hinit⟩ := List.getLast?_eq_some_iff.mp hlast
  have hleft : pattern <:+: s ++ (text ++ t) ↔ pattern <:+: s ∨ pattern <:+: text ++ t := by
    have hskip := infix_append_iff (s := []) (t := tail ++ t) hc hpattern
    rw [List.nil_append, List.infix_nil, or_iff_right hpattern] at hskip
    rw [htail, List.cons_append, infix_append_iff hc hpattern, hskip]
  have hright : pattern <:+: text ++ t ↔ pattern <:+: t := by
    have hinit' : ¬pattern <:+: init := fun h => hnone (hinit ▸ h.trans (List.prefix_append _ _).isInfix)
    rw [hinit, List.append_assoc, List.singleton_append, infix_append_iff hd hpattern, or_iff_right hinit']
  rw [hleft, hright]

end Occurrences

/-! ### Passages

A value is a passage of markup and of texts, which are escaped. Markup that is inert keeps the texts apart,
so that a pattern occurs in a passage only if it occurs in a text. -/

/-- Markup, or a text that is escaped. -/
inductive Fragment (α : Type)
  | markup (s : List α)
  | text (s : List α)

/-- The texts of a passage. -/
def texts (passage : List (Fragment α)) : List (List α) :=
  passage.filterMap fun
    | .markup _ => none
    | .text s => some s

@[simp] theorem texts_nil : texts ([] : List (Fragment α)) = [] := rfl

@[simp] theorem texts_markup (s : List α) (passage : List (Fragment α)) : texts (.markup s :: passage) = texts passage := rfl

@[simp] theorem texts_text (s : List α) (passage : List (Fragment α)) : texts (.text s :: passage) = s :: texts passage := rfl

@[simp] theorem texts_append (a b : List (Fragment α)) : texts (a ++ b) = texts a ++ texts b := List.filterMap_append

theorem texts_flatMap {β : Type} (f : β → List (Fragment α)) (bs : List β) :
    texts (bs.flatMap f) = bs.flatMap fun b => texts (f b) := by
  induction bs with
  | nil => rfl
  | cons b bs ih => rw [List.flatMap_cons, List.flatMap_cons, texts_append, ih]

/-- A fragment as it is written. -/
def Fragment.write (escape : α → List α) : Fragment α → List α
  | .markup s => s
  | .text s => s.flatMap escape

/-- A passage as it is written. -/
def write (escape : α → List α) (passage : List (Fragment α)) : List α := passage.flatMap (Fragment.write escape)

/-- Of two fragments next to each other, one is markup. -/
def Apart : Fragment α → Fragment α → Prop
  | .text _, .text _ => False
  | _, _ => True

/-- A passage of inert markup with single texts between it. -/
structure Interleaved (markers : List (List α)) (passage : List (Fragment α)) : Prop where
  chain : passage.IsChain Apart
  inert : ∀ s, .markup s ∈ passage → Inert markers s

/-- Such a passage that begins with markup. -/
structure Block (markers : List (List α)) (passage : List (Fragment α)) : Prop extends Interleaved markers passage where
  head : ∀ s, passage.head? ≠ some (.text s)

section Blocks

variable {markers : List (List α)} {a b : List (Fragment α)} {s : List α}

theorem Interleaved.text (s : List α) : Interleaved markers [.text s] where
  chain := .singleton _
  inert := by simp

/-- A block may follow any passage. -/
theorem Interleaved.append (ha : Interleaved markers a) (hb : Block markers b) : Interleaved markers (a ++ b) where
  chain := by
    refine List.isChain_append.mpr ⟨ha.chain, hb.chain, fun x _ y hy => ?_⟩
    cases y with
    | markup s => cases x <;> trivial
    | text s => exact absurd hy (hb.head s)
  inert := by
    intro s hs
    rcases List.mem_append.mp hs with hs | hs
    · exact ha.inert s hs
    · exact hb.inert s hs

/-- Any passage may follow markup. -/
theorem Interleaved.cons (hs : Inert markers s) (ha : Interleaved markers a) : Block markers (.markup s :: a) where
  chain := by
    refine List.isChain_cons.mpr ⟨fun y _ => ?_, ha.chain⟩
    cases y <;> trivial
  head := by simp
  inert := by
    intro s' hs'
    rcases List.mem_cons.mp hs' with heq | hs'
    · cases heq
      exact hs
    · exact ha.inert s' hs'

theorem Block.nil : Block markers [] where
  chain := .nil
  head := by simp
  inert := by simp

theorem Block.markup (h : Inert markers s) : Block markers [.markup s] := Block.nil.toInterleaved.cons h

theorem Block.pair (h : Inert markers s) (t : List α) : Block markers [.markup s, .text t] := (Interleaved.text t).cons h

theorem Block.cons_text (hs : Inert markers s) (t : List α) (hb : Block markers b) :
    Block markers (.markup s :: .text t :: b) := ((Interleaved.text t).append hb).cons hs

theorem Block.append (ha : Block markers a) (hb : Block markers b) : Block markers (a ++ b) where
  toInterleaved := ha.toInterleaved.append hb
  head := by
    intro s
    cases a with
    | nil => exact hb.head s
    | cons f a => exact ha.head s

theorem Block.flatMap {β : Type} {f : β → List (Fragment α)} {bs : List β} (h : ∀ b ∈ bs, Block markers (f b)) :
    Block markers (bs.flatMap f) := by
  induction bs with
  | nil => exact .nil
  | cons b bs ih =>
      obtain ⟨hb, hrest⟩ := List.forall_mem_cons.mp h
      exact hb.append (ih hrest)

end Blocks

/-- Escaping leaves an element alone, or puts others for it; the pattern has none of these. -/
def Escapes (escape : α → List α) (pattern : List α) : Prop :=
  ∀ c, escape c = [c] ∨ c ∉ pattern ∧ escape c ≠ [] ∧ ∀ d ∈ escape c, d ∉ pattern

variable {escape : α → List α} {pattern : List α}

theorem prefix_escape_iff (h : Escapes escape pattern) {start : List α} (hstart : start ⊆ pattern) (s : List α) :
    start <+: s.flatMap escape ↔ start <+: s := by
  induction s generalizing start with
  | nil => simp
  | cons c s ih =>
      cases start with
      | nil => simp
      | cons a start =>
          obtain ⟨ha, hrest⟩ := List.cons_subset.mp hstart
          rw [List.flatMap_cons]
          rcases h c with hsame | ⟨hc, hsome, hother⟩
          · rw [hsame, List.singleton_append, List.cons_prefix_cons, List.cons_prefix_cons, ih hrest]
          · obtain ⟨e, es, he⟩ := List.exists_cons_of_ne_nil hsome
            have hae : a ≠ e := fun heq => hother e (he ▸ List.mem_cons_self) (heq ▸ ha)
            have hac : a ≠ c := fun heq => hc (heq ▸ ha)
            rw [he, List.cons_append, List.cons_prefix_cons, List.cons_prefix_cons]
            simp [hae, hac]

/-- A pattern occurs in an escaped text exactly if it occurs in the text. -/
theorem infix_escape_iff (h : Escapes escape pattern) (hpattern : pattern ≠ []) (s : List α) :
    pattern <:+: s.flatMap escape ↔ pattern <:+: s := by
  induction s with
  | nil => rfl
  | cons c s ih =>
      rw [List.flatMap_cons]
      rcases h c with hsame | ⟨hc, -, hother⟩
      · rw [hsame, List.singleton_append, List.infix_cons_iff, List.infix_cons_iff, ih]
        have hhere := prefix_escape_iff h (List.Subset.refl _) (c :: s)
        rw [List.flatMap_cons, hsame, List.singleton_append] at hhere
        rw [hhere]
      · have hskip := infix_skip hpattern (s := [c]) (by simpa using hc) s
        rw [infix_skip hpattern hother, ih, ← hskip, List.singleton_append]

/-- **Passages.** A pattern occurs in a passage exactly if it occurs in one of the texts. -/
theorem infix_write_iff (hescape : Escapes escape pattern) (hpattern : pattern ≠ []) :
    ∀ {passage : List (Fragment α)}, passage.IsChain Apart → (∀ s, .markup s ∈ passage → Inert [pattern] s) →
      (pattern <:+: write escape passage ↔ ∃ t ∈ texts passage, pattern <:+: t)
  | [], _, _ => by simp [write, texts, hpattern]
  | .markup s :: passage, hchain, hinert => by
      have hrest := infix_write_iff hescape hpattern hchain.tail fun t ht => hinert t (List.mem_cons_of_mem _ ht)
      have hskip := infix_inert (hinert s List.mem_cons_self) hpattern [] (write escape passage)
      rw [List.nil_append, List.infix_nil, or_iff_right hpattern] at hskip
      exact hskip.trans hrest
  | [.text s], _, _ => by
      simp [write, texts, Fragment.write, infix_escape_iff hescape hpattern]
  | .text s :: .markup m :: passage, hchain, hinert => by
      have hrest := infix_write_iff hescape hpattern hchain.tail.tail fun t ht =>
        hinert t (List.mem_cons_of_mem _ (List.mem_cons_of_mem _ ht))
      have hm : Inert [pattern] m := hinert m (List.mem_cons_of_mem _ List.mem_cons_self)
      have hsplit := infix_inert hm hpattern (s.flatMap escape) (write escape passage)
      rw [List.tail_cons, List.tail_cons] at hrest
      rw [infix_escape_iff hescape hpattern, hrest] at hsplit
      have htexts : texts (.text s :: .markup m :: passage) = s :: texts passage := rfl
      rw [htexts, List.exists_mem_cons_iff]
      exact hsplit
  | .text s :: .text t :: passage, hchain, _ => by
      rw [List.isChain_cons_cons] at hchain
      exact hchain.1.elim

/-! ### Templates -/

/-- A hole of a template: the text before it, the marker that stands in it, and what it is filled with. -/
structure Slot (α : Type) where
  before : List α
  marker : List α
  value : List α

/-- The template itself. -/
def source (slots : List (Slot α)) (ending : List α) : List α :=
  slots.foldr (fun slot rest => slot.before ++ (slot.marker ++ rest)) ending

/-- The template with the values in its holes. -/
def filled (slots : List (Slot α)) (ending : List α) : List α :=
  slots.foldr (fun slot rest => slot.before ++ (slot.value ++ rest)) ending

/-- The markers stand alone, and the texts around the holes have none of them. -/
structure WellFormed (slots : List (Slot α)) (ending : List α) : Prop where
  markers : ∀ slot ∈ slots, slot.marker ≠ []
  alone : slots.Pairwise fun a b => ¬a.marker <:+: b.marker
  before : ∀ slot ∈ slots, Inert (slots.map (·.marker)) slot.before
  ending : Inert (slots.map (·.marker)) ending

section Templates

variable {slots : List (Slot α)} {ending : List α}

/-- What follows a hole begins with an inert text. -/
theorem source_eq_append {markers : List (List α)} (hbefore : ∀ slot ∈ slots, Inert markers slot.before)
    (hending : Inert markers ending) : ∃ text t, source slots ending = text ++ t ∧ Inert markers text := by
  cases slots with
  | nil => exact ⟨ending, [], (List.append_nil _).symm, hending⟩
  | cons slot slots => exact ⟨slot.before, _, rfl, hbefore slot List.mem_cons_self⟩

/-- A marker that is not one of the holes' is not in the template. -/
theorem not_infix_source (hpattern : pattern ≠ []) (hmarkers : ∀ slot ∈ slots, ¬pattern <:+: slot.marker)
    (hbefore : ∀ slot ∈ slots, Inert [pattern] slot.before) (hending : Inert [pattern] ending) :
    ¬pattern <:+: source slots ending := by
  induction slots with
  | nil => exact hending.2.2 pattern (List.mem_singleton_self _)
  | cons slot slots ih =>
      obtain ⟨hmarker, hmarkers⟩ := List.forall_mem_cons.mp hmarkers
      obtain ⟨hfirst, hbefore⟩ := List.forall_mem_cons.mp hbefore
      obtain ⟨text, t, hrest, hinert⟩ := source_eq_append hbefore hending
      have hnext := infix_inert hinert hpattern slot.marker t
      have hafter := infix_inert hinert hpattern [] t
      have hskip := infix_inert hfirst hpattern [] (slot.marker ++ source slots ending)
      rw [List.nil_append, List.infix_nil, or_iff_right hpattern] at hafter hskip
      show ¬pattern <:+: slot.before ++ (slot.marker ++ source slots ending)
      rw [hskip, hrest, hnext, or_iff_right hmarker, ← hafter, ← hrest]
      exact ih hmarkers hbefore

end Templates

/-! ### Replacing -/

variable [DecidableEq α]

/-- `replace`, where the next `skip` elements belong to an occurrence that has been replaced. -/
def replaceFrom (pattern value : List α) : Nat → List α → List α
  | _, [] => []
  | skip + 1, _ :: text => replaceFrom pattern value skip text
  | 0, c :: text =>
      if pattern <+: c :: text then value ++ replaceFrom pattern value (pattern.length - 1) text
      else c :: replaceFrom pattern value 0 text

/-- Replace every occurrence of a pattern, from the left. -/
def replace (pattern value text : List α) : List α := replaceFrom pattern value 0 text

/-- Replace one pattern after the other. -/
def sequence (replacements : List (List α × List α)) (text : List α) : List α :=
  replacements.foldl (fun text r => replace r.1 r.2 text) text

variable {value s t text ending : List α} {c : α} {slots : List (Slot α)}

theorem replaceFrom_append (hc : c ∉ pattern) (hpattern : pattern ≠ []) (s t : List α) :
    ∀ skip ≤ s.length,
      replaceFrom pattern value skip (s ++ c :: t) = replaceFrom pattern value skip s ++ c :: replace pattern value t := by
  induction s with
  | nil =>
      intro skip hskip
      obtain rfl := Nat.le_zero.mp hskip
      have hhead : ¬pattern <+: c :: t := fun h =>
        hpattern (List.prefix_nil.mp ((prefix_append_iff (s := []) hc).mp h))
      rw [List.nil_append, replaceFrom, replaceFrom, if_neg hhead]
      rfl
  | cons a s ih =>
      intro skip hskip
      cases skip with
      | succ skip => exact ih skip (Nat.le_of_succ_le_succ hskip)
      | zero =>
          rw [List.cons_append, replaceFrom, replaceFrom, ← List.cons_append]
          by_cases hstart : pattern <+: a :: s
          · have hlength := hstart.length_le
            rw [if_pos hstart, if_pos ((prefix_append_iff hc).mpr hstart),
              ih _ (by rw [List.length_cons] at hlength; omega), List.append_assoc]
          · rw [if_neg hstart, if_neg (hstart ∘ (prefix_append_iff hc).mp), ih 0 (Nat.zero_le _)]
            rfl

/-- Replacing goes part by part, between elements the pattern does not have. -/
theorem replace_append (hc : c ∉ pattern) (hpattern : pattern ≠ []) (s t : List α) :
    replace pattern value (s ++ c :: t) = replace pattern value s ++ c :: replace pattern value t :=
  replaceFrom_append hc hpattern s t 0 (Nat.zero_le _)

theorem replace_of_absent (h : ¬pattern <:+: t) : replace pattern value t = t := by
  induction t with
  | nil => rfl
  | cons a t ih =>
      rw [List.infix_cons_iff, not_or] at h
      rw [replace, replaceFrom, if_neg h.1]
      exact congrArg (a :: ·) (ih h.2)

theorem replace_self (hpattern : pattern ≠ []) : replace pattern value pattern = value := by
  have hskip : ∀ text : List α, replaceFrom pattern value text.length text = [] := by
    intro text
    induction text with
    | nil => rfl
    | cons a text ih => exact ih
  cases hcases : pattern with
  | nil => exact absurd hcases hpattern
  | cons a rest =>
      have hrest := hskip rest
      rw [hcases] at hrest
      rw [replace, replaceFrom, if_pos List.prefix_rfl, List.length_cons, Nat.add_sub_cancel, hrest, List.append_nil]

/-! ### Counting

An element that no pattern has gets no rarer by replacing, and more frequent with every value that
has it. -/

section Counting

variable {x : α}

/-- A pattern without `x` takes none of them with it. -/
theorem count_of_start {a : α} (hx : x ∉ pattern) (hpattern : pattern ≠ []) (h : pattern <+: a :: t) :
    (a :: t).count x = (t.drop (pattern.length - 1)).count x := by
  obtain ⟨rest, hrest⟩ := h
  obtain ⟨n, hn⟩ := Nat.exists_eq_succ_of_ne_zero (List.length_eq_zero_iff.not.mpr hpattern)
  have hdrop : t.drop (pattern.length - 1) = rest := by
    rw [← @List.drop_succ_cons _ a, show pattern.length - 1 + 1 = pattern.length by omega, ← hrest, List.drop_left]
  rw [hdrop, ← hrest, List.count_append, List.count_eq_zero.mpr hx, Nat.zero_add]

theorem count_drop_le_replaceFrom (hx : x ∉ pattern) (hpattern : pattern ≠ []) (t : List α) :
    ∀ skip, (t.drop skip).count x ≤ (replaceFrom pattern value skip t).count x := by
  induction t with
  | nil => simp [replaceFrom]
  | cons a t ih =>
      intro skip
      cases skip with
      | succ skip => exact ih skip
      | zero =>
          rw [replaceFrom]
          split
          next hstart =>
            have hcount := count_of_start hx hpattern hstart
            rw [List.drop_zero, hcount, List.count_append]
            exact (ih _).trans (Nat.le_add_left _ _)
          next =>
            rw [List.drop_zero, List.count_cons, List.count_cons]
            exact Nat.add_le_add_right (ih 0) _

theorem count_le_replace (hx : x ∉ pattern) (hpattern : pattern ≠ []) (t : List α) :
    t.count x ≤ (replace pattern value t).count x :=
  count_drop_le_replaceFrom hx hpattern t 0

theorem count_lt_replace (hx : x ∉ pattern) (hpattern : pattern ≠ []) (hvalue : x ∈ value) (h : pattern <:+: t) :
    t.count x < (replace pattern value t).count x := by
  induction t with
  | nil => exact absurd (List.infix_nil.mp h) hpattern
  | cons a t ih =>
      have hhere : (t.drop (pattern.length - 1)).count x ≤ (replaceFrom pattern value (pattern.length - 1) t).count x :=
        count_drop_le_replaceFrom hx hpattern t _
      have hpos := List.count_pos_iff.mpr hvalue
      rw [replace, replaceFrom]
      split
      next hstart =>
        have hcount := count_of_start hx hpattern hstart
        rw [hcount, List.count_append]
        omega
      next hnot =>
        have hrest := (List.infix_cons_iff.mp h).resolve_left hnot
        rw [List.count_cons, List.count_cons]
        exact Nat.add_lt_add_right (ih hrest) _

end Counting

/-! ### Sequences -/

variable {replacements : List (List α × List α)}

/-- A character that no pattern has keeps what is before it apart from what is after it. -/
theorem sequence_append (hc : ∀ r ∈ replacements, c ∉ r.1) (hpatterns : ∀ r ∈ replacements, r.1 ≠ []) (s t : List α) :
    sequence replacements (s ++ c :: t) = sequence replacements s ++ c :: sequence replacements t := by
  induction replacements generalizing s t with
  | nil => rfl
  | cons r rs ih =>
      obtain ⟨hr, hrest⟩ := List.forall_mem_cons.mp hc
      obtain ⟨hpattern, hothers⟩ := List.forall_mem_cons.mp hpatterns
      show sequence rs (replace r.1 r.2 (s ++ c :: t)) = _
      rw [replace_append hr hpattern, ih hrest hothers]
      rfl

theorem sequence_of_absent (h : ∀ r ∈ replacements, ¬r.1 <:+: t) : sequence replacements t = t := by
  induction replacements with
  | nil => rfl
  | cons r rs ih =>
      obtain ⟨hr, hrest⟩ := List.forall_mem_cons.mp h
      show sequence rs (replace r.1 r.2 t) = t
      rw [replace_of_absent hr, ih hrest]

section Counting

variable {x : α}

theorem count_le_sequence (hpatterns : ∀ r ∈ replacements, x ∉ r.1 ∧ r.1 ≠ []) (t : List α) :
    t.count x ≤ (sequence replacements t).count x := by
  induction replacements generalizing t with
  | nil => exact le_rfl
  | cons r rs ih =>
      obtain ⟨⟨hx, hpattern⟩, hrest⟩ := List.forall_mem_cons.mp hpatterns
      exact (count_le_replace hx hpattern t).trans (ih hrest _)

theorem count_lt_sequence (hpatterns : ∀ r ∈ replacements, x ∉ r.1 ∧ r.1 ≠ []) (hvalues : ∀ r ∈ replacements, x ∈ r.2)
    (h : ∃ r ∈ replacements, r.1 <:+: t) : t.count x < (sequence replacements t).count x := by
  induction replacements with
  | nil => simp at h
  | cons r rs ih =>
      obtain ⟨⟨hx, hpattern⟩, hrest⟩ := List.forall_mem_cons.mp hpatterns
      obtain ⟨hvalue, hothers⟩ := List.forall_mem_cons.mp hvalues
      show _ < (sequence rs (replace r.1 r.2 t)).count x
      by_cases hr : r.1 <:+: t
      · exact (count_lt_replace hx hpattern hvalue hr).trans_le (count_le_sequence hrest _)
      · -- where the first pattern does not occur, the text is unchanged
        obtain ⟨r', hr', hoccurs⟩ := h
        rw [replace_of_absent hr]
        rcases List.mem_cons.mp hr' with rfl | hr'
        · exact absurd hoccurs hr
        · exact ih hrest hothers ⟨r', hr', hoccurs⟩

end Counting

/-- What the markers are to be replaced by. -/
def replacementsOf (slots : List (Slot α)) : List (List α × List α) := slots.map fun slot => (slot.marker, slot.value)

/-- The values after the replacements of the later holes. -/
def rescanned : List (Slot α) → List (Slot α)
  | [] => []
  | slot :: slots => { slot with value := sequence (replacementsOf slots) slot.value } :: rescanned slots

/-! ### Filling a template -/

/-- The patterns of replacements. -/
def patterns (replacements : List (List α × List α)) : List (List α) := replacements.map (·.1)

/-- An inert text stays, and keeps what is before it apart from what is after it. -/
theorem sequence_inert (h : Inert (patterns replacements) text) (hpatterns : ∀ r ∈ replacements, r.1 ≠ []) (s t : List α) :
    sequence replacements (text ++ t) = text ++ sequence replacements t ∧
      sequence replacements (s ++ (text ++ t)) = sequence replacements s ++ (text ++ sequence replacements t) := by
  obtain ⟨⟨c, hfirst, hc⟩, ⟨d, hlast, hd⟩, hnone⟩ := h
  have hc' : ∀ r ∈ replacements, c ∉ r.1 := fun r hr => hc _ (List.mem_map_of_mem hr)
  have hd' : ∀ r ∈ replacements, d ∉ r.1 := fun r hr => hd _ (List.mem_map_of_mem hr)
  obtain ⟨tail, htail⟩ := List.head?_eq_some_iff.mp hfirst
  obtain ⟨init, hinit⟩ := List.getLast?_eq_some_iff.mp hlast
  have hkept : sequence replacements (text ++ t) = text ++ sequence replacements t := by
    have hsame : sequence replacements init = init := sequence_of_absent fun r hr hoccurs =>
      hnone _ (List.mem_map_of_mem hr) (hinit ▸ hoccurs.trans (List.prefix_append _ _).isInfix)
    rw [hinit, List.append_assoc, List.append_assoc, List.singleton_append, List.singleton_append,
      sequence_append hd' hpatterns, hsame]
  have hnil : sequence replacements [] = [] :=
    sequence_of_absent fun r hr hoccurs => hpatterns r hr (List.infix_nil.mp hoccurs)
  have hhead := sequence_append hc' hpatterns [] (tail ++ t)
  rw [hnil, List.nil_append, List.nil_append] at hhead
  refine ⟨hkept, ?_⟩
  rw [← hkept, htail, List.cons_append, sequence_append hc' hpatterns, hhead]

/-- **Sequence.** Replacing one marker after the other fills the holes with values in which the later markers have
been replaced as well. -/
theorem sequence_source (h : WellFormed slots ending) :
    sequence (replacementsOf slots) (source slots ending) = filled (rescanned slots) ending := by
  induction slots with
  | nil => rfl
  | cons slot slots ih =>
      obtain ⟨hmarker, hmarkers⟩ := List.forall_mem_cons.mp h.markers
      obtain ⟨halone, hothers⟩ := List.pairwise_cons.mp h.alone
      obtain ⟨hfirst, hbefore⟩ := List.forall_mem_cons.mp h.before
      have hsub : slots.map (·.marker) ⊆ (slot :: slots).map (·.marker) := List.subset_cons_self _ _
      have hone : [slot.marker] ⊆ (slot :: slots).map (·.marker) := by simp
      have hpatterns : patterns (replacementsOf (slot :: slots)) = (slot :: slots).map (·.marker) := by
        simp [patterns, replacementsOf]
      have hnonempty : ∀ r ∈ replacementsOf (slot :: slots), r.1 ≠ [] := by
        intro r hr
        obtain ⟨s, hs, rfl⟩ := List.mem_map.mp hr
        exact h.markers s hs
      obtain ⟨text, t, hrest, hinert⟩ := source_eq_append hbefore h.ending
      -- the marker does not occur after its hole
      have hlater : ¬slot.marker <:+: source slots ending :=
        not_infix_source hmarker halone (fun s hs => (hbefore s hs).mono hone) (h.ending.mono hone)
      have htail : sequence (replacementsOf (slot :: slots)) (source slots ending) = filled (rescanned slots) ending := by
        show sequence (replacementsOf slots) (replace slot.marker slot.value (source slots ending)) = _
        rw [replace_of_absent hlater]
        exact ih ⟨hmarkers, hothers, fun s hs => (hbefore s hs).mono hsub, h.ending.mono hsub⟩
      have hhole : sequence (replacementsOf (slot :: slots)) slot.marker = sequence (replacementsOf slots) slot.value :=
        congrArg (sequence (replacementsOf slots)) (replace_self hmarker)
      obtain ⟨-, hsplit⟩ := sequence_inert (hpatterns ▸ hinert) hnonempty slot.marker t
      obtain ⟨hkept, -⟩ := sequence_inert (hpatterns ▸ hinert) hnonempty [] t
      obtain ⟨hfirst, -⟩ := sequence_inert (hpatterns ▸ hfirst) hnonempty [] (slot.marker ++ source slots ending)
      show sequence _ (slot.before ++ (slot.marker ++ source slots ending)) = slot.before ++ (_ ++ _)
      rw [hfirst, hrest, hsplit, ← hkept, ← hrest, htail, hhole]
      rfl

/-- No value has the marker of a later hole in it. -/
def Separate (slots : List (Slot α)) : Prop := slots.Pairwise fun a b => ¬b.marker <:+: a.value

theorem rescanned_of_separate (h : Separate slots) : rescanned slots = slots := by
  induction slots with
  | nil => rfl
  | cons slot slots ih =>
      obtain ⟨hslot, hrest⟩ := List.pairwise_cons.mp h
      have hvalue : sequence (replacementsOf slots) slot.value = slot.value := sequence_of_absent fun r hr => by
        obtain ⟨s, hs, rfl⟩ := List.mem_map.mp hr
        exact hslot s hs
      rw [rescanned, hvalue, ih hrest]

/-- An element that all values and no markers have gets more frequent where a marker is replaced in a value. -/
theorem separate_of_filled_eq {x : α} (hmarkers : ∀ slot ∈ slots, x ∉ slot.marker ∧ slot.marker ≠ [])
    (hvalues : ∀ slot ∈ slots, x ∈ slot.value) :
    (filled slots ending).count x ≤ (filled (rescanned slots) ending).count x ∧
      ((filled (rescanned slots) ending).count x ≤ (filled slots ending).count x → Separate slots) := by
  induction slots with
  | nil => exact ⟨le_rfl, fun _ => .nil⟩
  | cons slot slots ih =>
      obtain ⟨-, hmarkers⟩ := List.forall_mem_cons.mp hmarkers
      obtain ⟨-, hvalues⟩ := List.forall_mem_cons.mp hvalues
      obtain ⟨hle, hseparate⟩ := ih hmarkers hvalues
      have hpatterns : ∀ r ∈ replacementsOf slots, x ∉ r.1 ∧ r.1 ≠ [] := by
        intro r hr
        obtain ⟨s, hs, rfl⟩ := List.mem_map.mp hr
        exact hmarkers s hs
      have hreplaced : ∀ r ∈ replacementsOf slots, x ∈ r.2 := by
        intro r hr
        obtain ⟨s, hs, rfl⟩ := List.mem_map.mp hr
        exact hvalues s hs
      have hvalue := count_le_sequence hpatterns slot.value
      simp only [rescanned, filled, List.foldr_cons, List.count_append] at hle hseparate ⊢
      refine ⟨by omega, fun hmore => ?_⟩
      refine List.pairwise_cons.mpr ⟨fun s hs hoccurs => ?_, hseparate (by omega)⟩
      have hlt := count_lt_sequence hpatterns hreplaced ⟨_, List.mem_map_of_mem hs, hoccurs⟩
      omega

/-- **Filling.** Replacing one marker after the other fills the template exactly if no value has a later marker. -/
theorem sequence_eq_filled_iff {x : α} (h : WellFormed slots ending) (hmarkers : ∀ slot ∈ slots, x ∉ slot.marker)
    (hvalues : ∀ slot ∈ slots, x ∈ slot.value) :
    sequence (replacementsOf slots) (source slots ending) = filled slots ending ↔ Separate slots := by
  rw [sequence_source h]
  constructor
  · intro heq
    have hbound : (filled (rescanned slots) ending).count x ≤ (filled slots ending).count x := heq ▸ le_rfl
    exact (separate_of_filled_eq (fun s hs => ⟨hmarkers s hs, h.markers s hs⟩) hvalues).2 hbound
  · intro hseparate
    rw [rescanned_of_separate hseparate]

end Template
