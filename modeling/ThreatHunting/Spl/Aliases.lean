import ThreatHunting.Spl.Fields

/-!
# ThreatHunting.Spl.Aliases

What the wildcard renames of `_validate_field_references` compute: `captures` splits every name
that the pattern matches into the parts of the pattern and the texts of its stars, and `aliases`
puts these texts between the parts of the target.
-/

namespace ThreatHunting.Spl

open Glob (Stands weave fnmatch)

section Captures

variable {name : Text} {parts : List Text} {cursor : Nat}

/-- The text between two positions, and what follows it. -/
theorem drop_take_append {e : Nat} (hle : cursor ≤ e) (he : e ≤ name.length) :
    (name.take e).drop cursor ++ name.drop e = name.drop cursor := by
  have hlength : cursor ≤ (name.take e).length := by rw [List.length_take]; omega
  calc (name.take e).drop cursor ++ name.drop e = (name.take e ++ name.drop e).drop cursor :=
        (List.drop_append_of_le_length hlength).symm
    _ = name.drop cursor := by rw [List.take_append_drop]

/-- The search for the end of a capture succeeds, and so do those after it, if any end will do. -/
theorem captures_eq_ok (hparts : ∀ part ∈ parts, '*' ∉ part) (hne : parts ≠ [])
    (h : ∃ e, cursor ≤ e ∧ e ≤ name.length ∧ fnmatch (join "*" parts) (name.drop e) = true) :
    ∃ found pieces, captures name cursor parts = .ok found ∧ found.length = parts.length ∧
      List.Forall₂ Stands parts pieces ∧ name.drop cursor = (List.zipWith (· ++ ·) found pieces).flatten := by
  induction parts generalizing cursor with
  | nil => exact absurd rfl hne
  | cons part parts ih =>
      obtain ⟨hpart, hparts⟩ := List.forall_mem_cons.mp hparts
      have hsome : ((List.range' cursor (name.length + 1 - cursor)).reverse.find? fun e =>
          fnmatch (join "*" (part :: parts)) (name.drop e)).isSome := by
        obtain ⟨e, hle, he, hmatch⟩ := h
        rw [List.find?_isSome]
        exact ⟨e, by simp only [List.mem_reverse, List.mem_range'_1]; omega, hmatch⟩
      obtain ⟨e, hfind⟩ := Option.isSome_iff_exists.mp hsome
      have hmatch : fnmatch (join "*" (part :: parts)) (name.drop e) = true := by simpa using List.find?_some hfind
      have hmem := List.mem_of_find?_eq_some hfind
      simp only [List.mem_reverse, List.mem_range'_1] at hmem
      have hle : cursor ≤ e := hmem.1
      have he : e ≤ name.length := by omega
      rw [captures, hfind]
      by_cases hlast : parts = []
      · subst hlast
        have hjoin : join "*" [part] = part := List.intercalate_singleton
        rw [hjoin, Glob.fnmatch_part hpart] at hmatch
        refine ⟨[(name.take e).drop cursor], [name.drop e], rfl, rfl, .cons hmatch .nil, ?_⟩
        simpa using (drop_take_append hle he).symm
      · obtain ⟨piece, cap, suf, hname, hpiece, hsuf⟩ := (Glob.fnmatch_star_append hpart hlast).mp hmatch
        have hlength : part.length + (cap.length + suf.length) = name.length - e := by
          rw [hpiece.length_eq, ← List.length_drop, hname, List.length_append, List.length_append]
        have hrest : name.drop (e + part.length) = cap ++ suf := by
          rw [← List.drop_drop, hname, hpiece.length_eq, List.drop_left]
        have hend : name.drop (e + part.length + cap.length) = suf := by rw [← List.drop_drop, hrest, List.drop_left]
        have hnext : ∃ e', e + part.length ≤ e' ∧ e' ≤ name.length ∧ fnmatch (join "*" parts) (name.drop e') = true :=
          ⟨e + part.length + cap.length, by omega, by omega, by rwa [hend]⟩
        obtain ⟨found, pieces, hfound, hcount, hpieces, hwoven⟩ := ih hparts hlast hnext
        refine ⟨(name.take e).drop cursor :: found, piece :: pieces, ?_, congrArg Nat.succ hcount, .cons hpiece hpieces, ?_⟩
        · simp only [hfound]
          rfl
        · rw [List.zipWith_cons_cons, List.flatten_cons, List.append_assoc, ← hwoven, hrest, ← hname,
            drop_take_append hle he]

end Captures

/-! ### Aliases -/

section Aliases

variable {known matched renamed : List Text} {source target name : Text}

/-- The parts of a pattern, joined with stars, are the pattern. -/
theorem join_splitOn (pattern : Text) : join "*" (pattern.splitOn '*') = pattern :=
  List.intercalate_splitOn '*'

theorem splitOn_eq_cons (pattern : Text) :
    pattern.splitOn '*' = (pattern.splitOn '*').headD [] :: (pattern.splitOn '*').tail := by
  cases h : pattern.splitOn '*' with
  | nil => exact absurd h (List.splitOn_ne_nil _ _)
  | cons part parts => rfl

theorem length_splitOn (pattern : Text) : (pattern.splitOn '*').length = pattern.count '*' + 1 := by
  induction pattern with
  | nil => rfl
  | cons c pattern ih =>
      rw [List.splitOn_cons_eq_if_modifyHead, List.count_cons]
      split
      next hc => simp [hc, ih]
      next hc => simp [hc, ih]

/-- A pattern matches a name that its parts are woven into. -/
theorem fnmatch_iff_weave : fnmatch source name = true ↔ ∃ pieces found,
    List.Forall₂ Stands (source.splitOn '*') pieces ∧ found.length = source.count '*' ∧ name = weave pieces found := by
  have hmatch : fnmatch (['*'].intercalate (source.splitOn '*')) name = true ↔ _ :=
    Glob.fnmatch_intercalate not_mem_of_mem_splitOn (List.splitOn_ne_nil _ _)
  rw [show ['*'].intercalate (source.splitOn '*') = source from join_splitOn source, length_splitOn] at hmatch
  simpa using hmatch

/-- The captures of a name that the pattern matches, with which it is the parts of the pattern again. -/
theorem captures_of_match (h : fnmatch source name = true) : ∃ found pieces,
    captures name ((source.splitOn '*').headD []).length (source.splitOn '*').tail = .ok found ∧
      found.length = source.count '*' ∧ List.Forall₂ Stands (source.splitOn '*') pieces ∧ name = weave pieces found := by
  have hparts : ∀ part ∈ source.splitOn '*', '*' ∉ part := not_mem_of_mem_splitOn
  have hlength := length_splitOn source
  rw [← join_splitOn source] at h
  rw [splitOn_eq_cons source] at h hparts hlength ⊢
  generalize (source.splitOn '*').headD [] = part at h hparts hlength ⊢
  generalize (source.splitOn '*').tail = parts at h hparts hlength ⊢
  obtain ⟨hpart, hparts⟩ := List.forall_mem_cons.mp hparts
  rw [List.headD_cons, List.tail_cons]
  by_cases hlast : parts = []
  · subst hlast
    have hjoin : join "*" [part] = part := List.intercalate_singleton
    rw [hjoin, Glob.fnmatch_part hpart] at h
    exact ⟨[], [name], rfl, Nat.succ.inj hlength, .cons h .nil, by simp [weave]⟩
  · obtain ⟨piece, cap, suf, hname, hpiece, hsuf⟩ := (Glob.fnmatch_star_append hpart hlast).mp h
    have hdrop : name.drop part.length = cap ++ suf := by rw [hname, hpiece.length_eq, List.drop_left]
    have hend : name.drop (part.length + cap.length) = suf := by rw [← List.drop_drop, hdrop, List.drop_left]
    have hlong : part.length + cap.length ≤ name.length := by
      rw [hname, hpiece.length_eq, List.length_append, List.length_append]
      omega
    have hends : ∃ e, part.length ≤ e ∧ e ≤ name.length ∧ fnmatch (join "*" parts) (name.drop e) = true :=
      ⟨part.length + cap.length, by omega, hlong, by rw [hend]; exact hsuf⟩
    obtain ⟨found, pieces, hfound, hcount, hpieces, hwoven⟩ := captures_eq_ok hparts hlast hends
    refine ⟨found, piece :: pieces, hfound, hcount.trans (Nat.succ.inj hlength), .cons hpiece hpieces, ?_⟩
    rw [weave, List.headD_cons, List.tail_cons, ← hwoven, hdrop, ← hname]

theorem mem_join_of_mem {parts : List Text} {part : Text} {c : Char} (hpart : part ∈ parts) (hc : c ∈ part) :
    c ∈ join "*" parts := by
  induction parts with
  | nil => cases hpart
  | cons first parts ih =>
      by_cases hlast : parts = []
      · subst hlast
        obtain rfl := List.mem_singleton.mp hpart
        have hjoin : join "*" [part] = part := List.intercalate_singleton
        rwa [hjoin]
      · have hjoin : join "*" (first :: parts) = first ++ '*' :: join "*" parts := Glob.intercalate_cons hlast first
        rw [hjoin, List.mem_append]
        rcases List.mem_cons.mp hpart with rfl | hpart
        · exact .inl hc
        · exact .inr (List.mem_cons_of_mem _ (ih hpart))

/-- What a matched name is renamed to: the texts of its stars between the parts of the target. -/
def Aliased (source target name new : Text) : Prop := ∃ found pieces,
  captures name ((source.splitOn '*').headD []).length (source.splitOn '*').tail = .ok found ∧
    found.length = source.count '*' ∧ List.Forall₂ Stands (source.splitOn '*') pieces ∧ name = weave pieces found ∧
      new = weave (target.splitOn '*') found

/-- Every known name that matches is renamed. -/
theorem aliases_eq_ok (known : List Text) (hcount : source.count '*' = target.count '*')
    (hlimit : source.count '*' ≤ 32) : ∃ renamed, aliases known source target = .ok (known.filter (fnmatch source), renamed) ∧
      List.Forall₂ (Aliased source target) (known.filter (fnmatch source)) renamed := by
  have hguard : (source.count '*' != target.count '*' || decide (source.count '*' > 32)) = false := by
    simpa [hcount] using hlimit
  have hsucceeds : Fallible.Succeeds ((known.filter (fnmatch source)).mapM fun name => do
      let found ← captures name ((source.splitOn '*').headD []).length (source.splitOn '*').tail
      return (target.splitOn '*').headD [] ++ (List.zipWith (· ++ ·) found (target.splitOn '*').tail).flatten) := by
    refine Fallible.succeeds_mapM.mpr fun name hname => ?_
    obtain ⟨found, pieces, hfound, -⟩ := captures_of_match (List.mem_filter.mp hname).2
    rw [hfound]
    exact Fallible.succeeds_ok _
  obtain ⟨renamed, hrenamed⟩ := hsucceeds
  refine ⟨renamed, ?_, ?_⟩
  · rw [aliases, hguard]
    simp only [hrenamed]
    rfl
  · have hmatched : ∀ name ∈ known.filter (fnmatch source), fnmatch source name = true := fun name hname =>
      (List.mem_filter.mp hname).2
    refine ((List.forall₂_and_left _ _).mpr ⟨hmatched, Fallible.forall₂_of_mapM hrenamed⟩).imp fun name new ⟨hmatch, hnew⟩ => ?_
    obtain ⟨found, pieces, hfound, hlength, hpieces, hname⟩ := captures_of_match hmatch
    rw [hfound] at hnew
    exact ⟨found, pieces, hfound, hlength, hpieces, hname, (Except.ok.inj hnew).symm⟩

/-- A pattern whose parts stand for themselves only. -/
def Plain (pattern : Text) : Prop := ∀ c ∈ pattern, c ≠ '?' ∧ c ≠ '[' ∧ c ≠ ']'

theorem eq_of_stands (hplain : Plain source) {pieces : List Text}
    (h : List.Forall₂ Stands (source.splitOn '*') pieces) : pieces = source.splitOn '*' := by
  have hparts : ∀ part ∈ source.splitOn '*', '?' ∉ part := by
    intro part hpart hmem
    refine (hplain '?' ?_).1 rfl
    rw [← join_splitOn source]
    exact mem_join_of_mem hpart hmem
  have hall : List.Forall₂ Eq (source.splitOn '*') pieces :=
    ((List.forall₂_and_left _ _).mpr ⟨hparts, h⟩).imp fun _ _ ⟨hpart, hpiece⟩ => hpiece.eq hpart
  rw [List.forall₂_eq_eq_eq] at hall
  exact hall.symm

/-- What renaming the names that a pattern matches is to do. -/
structure Renames (known : List Text) (source target : Text) (matched renamed : List Text) : Prop where
  /-- The names are the known ones that are the parts of the pattern with texts between them. -/
  matched_iff : ∀ name, name ∈ matched ↔
    name ∈ known ∧ ∃ found, found.length = source.count '*' ∧ name = weave (source.splitOn '*') found
  /-- Each is given the parts of the target with the same texts between them. -/
  renamed_of : List.Forall₂ (fun name new => ∃ found,
    captures name ((source.splitOn '*').headD []).length (source.splitOn '*').tail = .ok found ∧
      found.length = source.count '*' ∧ weave (source.splitOn '*') found = name ∧
        weave (target.splitOn '*') found = new) matched renamed

/-- The renaming succeeds, and does this. -/
def Exact (known : List Text) (source target : Text) : Prop :=
  ∃ matched renamed, aliases known source target = .ok (matched, renamed) ∧ Renames known source target matched renamed

/-- **Wildcard renames.** A plain pattern of up to 32 stars renames exactly the names it matches; one
with more is refused. -/
theorem wildcard_rename (known : List Text) (hplain : Plain source) (hcount : source.count '*' = target.count '*') :
    if source.count '*' ≤ 32 then Exact known source target
    else aliases known source target = syntaxNotSupported := by
  split
  next hlimit =>
    obtain ⟨renamed, hok, hall⟩ := aliases_eq_ok known hcount hlimit
    refine ⟨_, renamed, hok, fun name => ?_, hall.imp ?_⟩
    · rw [List.mem_filter, fnmatch_iff_weave]
      refine and_congr_right fun _ => ⟨?_, ?_⟩
      · intro ⟨pieces, found, hpieces, hlength, hname⟩
        exact ⟨found, hlength, by rw [hname, eq_of_stands hplain hpieces]⟩
      · intro ⟨found, hlength, hname⟩
        exact ⟨_, found, List.forall₂_same.mpr fun part _ => Glob.stands_self part, hlength, hname⟩
    · intro name new ⟨found, pieces, hfound, hlength, hpieces, hname, hnew⟩
      exact ⟨found, hfound, hlength, by rw [hname, eq_of_stands hplain hpieces], hnew.symm⟩
  next hlimit =>
    have hguard : (source.count '*' != target.count '*' || decide (source.count '*' > 32)) = true := by
      simp [hcount] at hlimit ⊢
      omega
    rw [aliases, hguard]
    rfl

/-- The names of one family are renamed to another. -/
theorem wildcard_rename_user :
    Exact ["user_id".toList, "host".toList] "user_*".toList "account_*".toList := by
  have hplain : Plain "user_*".toList := by
    intro c hc
    simp only [String.reduceToList, List.mem_cons, List.not_mem_nil, or_false] at hc
    rcases hc with rfl | rfl | rfl | rfl | rfl | rfl <;> decide
  exact @wildcard_rename "user_*".toList "account_*".toList ["user_id".toList, "host".toList] hplain (by decide)

/-- A pattern of 33 stars is refused, although the target has as many. -/
theorem many_stars_refused : ∃ source target : Text, Plain source ∧ source.count '*' = target.count '*' ∧
    ¬Exact [] source target := by
  refine ⟨List.replicate 33 '*', List.replicate 33 '*', ?_, rfl, ?_⟩
  · intro c hc
    rw [List.eq_of_mem_replicate hc]
    decide
  · intro ⟨matched, renamed, hok, _⟩
    have hrefused : aliases [] (List.replicate 33 '*') (List.replicate 33 '*') = syntaxNotSupported := rfl
    rw [hrefused] at hok
    cases hok

end Aliases

end ThreatHunting.Spl
