import Mathlib

/-!
# Fallible computations

Inversion of `Except` computations: a sequence succeeds when each of its parts does, and
fails as the first of its parts that fails. `Settles` names, for a computation, the faults it
would meet in order, were it to go on after each, and the value it would return without any.
-/

namespace Fallible

variable {ε α β : Type}

/-- A sequence succeeds exactly when both parts do. -/
theorem bind_eq_ok {x : Except ε α} {f : α → Except ε β} {b : β} :
    (x >>= f) = .ok b ↔ ∃ a, x = .ok a ∧ f a = .ok b := by
  cases x with
  | error e => simp [bind, Except.bind]
  | ok a => simp [bind, Except.bind]

@[simp] theorem ok_bind {a : α} {f : α → Except ε β} : ((.ok a : Except ε α) >>= f) = f a := rfl

@[simp] theorem error_bind {e : ε} {f : α → Except ε β} :
    ((.error e : Except ε α) >>= f) = .error e := rfl

theorem map_eq_ok {x : Except ε α} {f : α → β} {b : β} :
    x.map f = .ok b ↔ ∃ a, x = .ok a ∧ f a = b := by
  cases x <;> simp [Except.map]

/-- Every computation of a list that succeeds has succeeded. -/
theorem forall₂_of_mapM {f : α → Except ε β} :
    ∀ {as : List α} {bs : List β}, as.mapM f = .ok bs → List.Forall₂ (fun a b => f a = .ok b) as bs
  | [], bs, h => by
      rw [List.mapM_nil] at h
      cases h
      exact .nil
  | a :: as, bs, h => by
      rw [List.mapM_cons] at h
      obtain ⟨b, hb, h⟩ := bind_eq_ok.mp h
      obtain ⟨bs, hbs, h⟩ := bind_eq_ok.mp h
      cases h
      exact .cons hb (forall₂_of_mapM hbs)

/-- Their values are the values of the list's items. -/
theorem mem_of_mapM {f : α → Except ε β} {as : List α} {bs : List β} (h : as.mapM f = .ok bs) :
    (∀ b ∈ bs, ∃ a ∈ as, f a = .ok b) ∧ ∀ a ∈ as, ∃ b ∈ bs, f a = .ok b := by
  have hall := forall₂_of_mapM h
  clear h
  induction hall with
  | nil => simp
  | @cons a b as bs hab _ ih =>
      refine ⟨fun b' hb' => ?_, fun a' ha' => ?_⟩
      · rcases List.mem_cons.mp hb' with rfl | hb'
        · exact ⟨a, List.mem_cons_self, hab⟩
        · obtain ⟨a', ha', hok⟩ := ih.1 b' hb'
          exact ⟨a', List.mem_cons_of_mem a ha', hok⟩
      · rcases List.mem_cons.mp ha' with rfl | ha'
        · exact ⟨b, List.mem_cons_self, hab⟩
        · obtain ⟨b', hb', hok⟩ := ih.2 a' ha'
          exact ⟨b', List.mem_cons_of_mem b hb', hok⟩

/-- Their order does not decide whether they succeed, nor what their values are. -/
theorem mapM_perm {f : α → Except ε β} {as as' : List α} (h : as.Perm as') :
    ∀ {bs : List β}, as.mapM f = .ok bs → ∃ bs', as'.mapM f = .ok bs' ∧ bs.Perm bs' := by
  induction h with
  | nil => exact fun {bs} hbs => ⟨bs, hbs, .refl bs⟩
  | @cons a as as' _ ih =>
      intro bs hbs
      rw [List.mapM_cons] at hbs
      obtain ⟨b, hb, hbs⟩ := bind_eq_ok.mp hbs
      obtain ⟨cs, hcs, hbs⟩ := bind_eq_ok.mp hbs
      cases hbs
      obtain ⟨cs', hcs', hperm⟩ := ih hcs
      exact ⟨b :: cs', by rw [List.mapM_cons, hb, hcs']; rfl, .cons b hperm⟩
  | swap a a' as =>
      intro bs hbs
      rw [List.mapM_cons, List.mapM_cons] at hbs
      obtain ⟨b', hb', hbs⟩ := bind_eq_ok.mp hbs
      obtain ⟨cs, hcs, hbs⟩ := bind_eq_ok.mp hbs
      obtain ⟨b, hb, hcs⟩ := bind_eq_ok.mp hcs
      obtain ⟨ds, hds, hcs⟩ := bind_eq_ok.mp hcs
      cases hcs
      cases hbs
      exact ⟨b :: b' :: ds, by rw [List.mapM_cons, List.mapM_cons, hb, hb', hds]; rfl, .swap b b' ds⟩
  | trans _ _ ih ih' =>
      intro bs hbs
      obtain ⟨bs', hbs', hperm⟩ := ih hbs
      obtain ⟨bs'', hbs'', hperm'⟩ := ih' hbs'
      exact ⟨bs'', hbs'', hperm.trans hperm'⟩

/-! ### Success -/

/-- The computation returns a value. -/
def Succeeds (x : Except ε α) : Prop := ∃ a, x = .ok a

@[simp] theorem succeeds_ok (a : α) : Succeeds (.ok a : Except ε α) := ⟨a, rfl⟩

@[simp] theorem succeeds_pure (a : α) : Succeeds (pure a : Except ε α) := ⟨a, rfl⟩

@[simp] theorem not_succeeds_error (e : ε) : ¬Succeeds (.error e : Except ε α) := nofun

theorem succeeds_map {x : Except ε α} {f : α → β} : Succeeds (x.map f) ↔ Succeeds x := by
  cases x <;> simp [Except.map]

/-- A sequence succeeds exactly if both parts do, where what is asked of the second does not depend on the
value of the first. -/
theorem succeeds_bind {x : Except ε α} {f : α → Except ε β} {P : Prop} (h : ∀ a, x = .ok a → (Succeeds (f a) ↔ P)) :
    Succeeds (x >>= f) ↔ Succeeds x ∧ P := by
  cases x with
  | error e => simp
  | ok a => simpa using h a rfl

theorem succeeds_bind_pure {x : Except ε α} {f : α → β} : Succeeds (x >>= fun a => pure (f a)) ↔ Succeeds x := by
  cases x <;> simp

/-- Computations of a list succeed exactly if each of them does. -/
theorem succeeds_mapM {f : α → Except ε β} : ∀ {as : List α}, Succeeds (as.mapM f) ↔ ∀ a ∈ as, Succeeds (f a)
  | [] => by simp
  | a :: as => by
      rw [List.mapM_cons, succeeds_bind fun b _ => @succeeds_bind _ _ _ _ _ True fun bs _ => by simp, succeeds_mapM]
      simp

/-- A loop over a list succeeds exactly if each round does. -/
theorem succeeds_forM {f : α → Except ε PUnit} : ∀ {as : List α}, Succeeds (as.forM f) ↔ ∀ a ∈ as, Succeeds (f a)
  | [] => by simp
  | a :: as => by
      show Succeeds (f a >>= fun _ => as.forM f) ↔ _
      rw [succeeds_bind fun _ _ => succeeds_forM]
      simp

theorem forM_eq_ok {f : α → Except ε Unit} {as : List α} : as.forM f = .ok () ↔ ∀ a ∈ as, f a = .ok () := by
  have hunit : ∀ x : Except ε Unit, x = .ok () ↔ Succeeds x := fun x => ⟨fun h => ⟨(), h⟩, fun ⟨_, h⟩ => h⟩
  rw [hunit, succeeds_forM]
  simp only [hunit]

theorem toOption_eq_some {x : Except ε α} {a : α} : x.toOption = some a ↔ x = .ok a := by
  cases x <;> simp [Except.toOption]

theorem exists_of_toBool {x : Except ε α} (h : x.toBool = true) : ∃ a, x = .ok a := by
  cases x with
  | error e => cases h
  | ok a => exact ⟨a, rfl⟩

/-! ### What is raised -/

/-- Every exception of the computation satisfies `P`. -/
def Raises (P : ε → Prop) (x : Except ε α) : Prop := ∀ e, x = .error e → P e

namespace Raises

variable {P : ε → Prop} {x : Except ε α}

theorem ok (a : α) : Raises P (.ok a : Except ε α) := nofun

theorem pure (a : α) : Raises P (Pure.pure a : Except ε α) := nofun

theorem error {e : ε} (h : P e) : Raises P (.error e : Except ε α) := by
  intro e' he
  cases he
  exact h

theorem bind {f : α → Except ε β} (hx : Raises P x) (hf : ∀ a, x = .ok a → Raises P (f a)) : Raises P (x >>= f) := by
  cases x with
  | error e => exact error (hx e rfl)
  | ok a => exact hf a rfl

theorem map {f : α → β} (hx : Raises P x) : Raises P (x.map f) := by
  cases x with
  | error e => exact error (hx e rfl)
  | ok a => exact ok (f a)

theorem ite {c : Prop} [Decidable c] {y : Except ε α} (hx : c → Raises P x) (hy : ¬c → Raises P y) :
    Raises P (if c then x else y) := by
  by_cases hc : c
  · rw [if_pos hc]
    exact hx hc
  · rw [if_neg hc]
    exact hy hc

theorem mapM {f : α → Except ε β} : ∀ {as : List α}, (∀ a ∈ as, Raises P (f a)) → Raises P (as.mapM f)
  | [], _ => by
      rw [List.mapM_nil]
      exact pure []
  | a :: as, h => by
      rw [List.mapM_cons]
      exact (h a List.mem_cons_self).bind fun _ _ =>
        (mapM fun b hb => h b (List.mem_cons_of_mem a hb)).bind fun _ _ => pure _

end Raises

/-! ### Following another computation -/

/-- Where the first computation succeeds the second does, with a related value. -/
def Follows (R : α → β → Prop) (x : Except ε α) (y : Except ε β) : Prop := ∀ a, x = .ok a → ∃ b, y = .ok b ∧ R a b

namespace Follows

variable {γ δ : Type} {R : α → β → Prop} {S : γ → δ → Prop} {x x' : Except ε α} {y y' : Except ε β}

theorem refl (x : Except ε α) : Follows Eq x x := fun a h => ⟨a, h, rfl⟩

theorem ok {a : α} {b : β} (h : R a b) : Follows R (.ok a : Except ε α) (.ok b) := by
  intro a' ha'
  cases ha'
  exact ⟨b, rfl, h⟩

theorem pure {a : α} {b : β} (h : R a b) : Follows R (Pure.pure a : Except ε α) (Pure.pure b) := ok h

theorem error (e : ε) (y : Except ε β) : Follows R (.error e) y := nofun

theorem bind {f : α → Except ε γ} {g : β → Except ε δ} (h : Follows R x y)
    (hf : ∀ a b, R a b → Follows S (f a) (g b)) : Follows S (x >>= f) (y >>= g) := by
  intro c hc
  obtain ⟨a, ha, hc⟩ := bind_eq_ok.mp hc
  obtain ⟨b, hb, hab⟩ := h a ha
  obtain ⟨d, hd, hcd⟩ := hf a b hab c hc
  exact ⟨d, bind_eq_ok.mpr ⟨b, hb, hd⟩, hcd⟩

/-- The same value is put to use. -/
theorem bindEq {f : α → Except ε γ} {g : α → Except ε δ} (h : Follows Eq x x')
    (hf : ∀ a, Follows S (f a) (g a)) : Follows S (x >>= f) (x' >>= g) :=
  h.bind fun a b hab => hab ▸ hf a

theorem ite {c : Prop} [Decidable c] (h : c → Follows R x y) (h' : ¬c → Follows R x' y') :
    Follows R (if c then x else x') (if c then y else y') := by
  by_cases hc : c
  · rw [if_pos hc, if_pos hc]
    exact h hc
  · rw [if_neg hc, if_neg hc]
    exact h' hc

theorem imp {R' : α → β → Prop} (h : Follows R x y) (hR : ∀ a b, R a b → R' a b) : Follows R' x y := by
  intro a ha
  obtain ⟨b, hb, hab⟩ := h a ha
  exact ⟨b, hb, hR a b hab⟩

/-- More items give the values of the fewer, if each of them gives one. -/
theorem mapM {f : α → Except ε β} {as as' : List α} (hsub : as ⊆ as') (hmore : ∀ a ∈ as', Succeeds (f a)) :
    Follows (· ⊆ ·) (as.mapM f) (as'.mapM f) := by
  intro bs hbs
  obtain ⟨bs', hbs'⟩ := succeeds_mapM.mpr hmore
  refine ⟨bs', hbs', fun b hb => ?_⟩
  obtain ⟨a, ha, hok⟩ := (mem_of_mapM hbs).1 b hb
  obtain ⟨b', hb', hok'⟩ := (mem_of_mapM hbs').2 a (hsub ha)
  rw [hok] at hok'
  cases hok'
  exact hb'

end Follows

/-! ### The first fault -/

/-- A fault of a computation: one it reports as it should, or one that is fatal. -/
inductive Verdict
  | refused
  | fatal
  deriving DecidableEq, Repr

variable {fatal : ε → Prop}

/-- The computation returns `a` if there are no faults, and else fails as the first of them says. -/
def Settles (fatal : ε → Prop) (x : Except ε α) : List Verdict → α → Prop
  | [], a => x = .ok a
  | .refused :: _, _ => ∃ e, x = .error e ∧ ¬fatal e
  | .fatal :: _, _ => ∃ e, x = .error e ∧ fatal e

namespace Settles

theorem ok (a : α) : Settles fatal (.ok a) [] a := rfl

theorem refuse {e : ε} (he : ¬fatal e) (a : α) : Settles fatal (.error e) [.refused] a := ⟨e, rfl, he⟩

theorem fault {e : ε} (he : fatal e) (a : α) : Settles fatal (.error e) [.fatal] a := ⟨e, rfl, he⟩

/-- One computation after the other meets the faults of both, in order. -/
theorem bind {x : Except ε α} {f : α → Except ε β} {vs ws : List Verdict} {a : α} {b : β}
    (hx : Settles fatal x vs a) (hf : Settles fatal (f a) ws b) : Settles fatal (x >>= f) (vs ++ ws) b := by
  cases vs with
  | nil =>
      rw [show x = .ok a from hx]
      exact hf
  | cons v vs =>
      cases v with
      | refused =>
          obtain ⟨e, rfl, he⟩ := hx
          exact ⟨e, rfl, he⟩
      | fatal =>
          obtain ⟨e, rfl, he⟩ := hx
          exact ⟨e, rfl, he⟩

theorem map {x : Except ε α} {vs : List Verdict} {a : α} (hx : Settles fatal x vs a) (f : α → β) :
    Settles fatal (f <$> x) vs (f a) := by
  cases vs with
  | nil =>
      rw [show x = .ok a from hx]
      exact rfl
  | cons v vs =>
      cases v with
      | refused =>
          obtain ⟨e, rfl, he⟩ := hx
          exact ⟨e, rfl, he⟩
      | fatal =>
          obtain ⟨e, rfl, he⟩ := hx
          exact ⟨e, rfl, he⟩

/-- What cannot fail adds no fault. -/
theorem bindOk {x : Except ε α} {f : α → Except ε β} {vs : List Verdict} {a : α} {b : β}
    (hx : Settles fatal x vs a) (hf : f a = .ok b) : Settles fatal (x >>= f) vs b := by
  have both := hx.bind (show Settles fatal (f a) [] b from hf)
  rwa [List.append_nil] at both

/-- A list of computations meets the faults of each, in order. -/
theorem mapM {f : α → Except ε β} {vs : α → List Verdict} {g : α → β} :
    ∀ {as : List α}, (∀ a ∈ as, Settles fatal (f a) (vs a) (g a)) →
      Settles fatal (as.mapM f) (as.flatMap vs) (as.map g)
  | [], _ => ok []
  | a :: as, h => by
      rw [List.mapM_cons]
      have rest := mapM fun a' ha' => h a' (List.mem_cons_of_mem a ha')
      exact (h a List.mem_cons_self).bind (rest.map (g a :: ·))

/-- A fatal error is the first fault, and nothing else. -/
theorem fatal_iff {x : Except ε α} {vs : List Verdict} {a : α} (h : Settles fatal x vs a) :
    (∃ e, x = .error e ∧ fatal e) ↔ vs.head? = some .fatal := by
  cases vs with
  | nil =>
      rw [show x = .ok a from h]
      simp
  | cons v vs =>
      cases v with
      | refused =>
          obtain ⟨e, rfl, he⟩ := h
          simpa using he
      | fatal =>
          obtain ⟨e, rfl, he⟩ := h
          simpa using he

/-- Any other error is the first fault, and nothing else. -/
theorem refused_iff {x : Except ε α} {vs : List Verdict} {a : α} (h : Settles fatal x vs a) :
    (∃ e, x = .error e ∧ ¬fatal e) ↔ vs.head? = some .refused := by
  cases vs with
  | nil =>
      rw [show x = .ok a from h]
      simp
  | cons v vs =>
      cases v with
      | refused =>
          obtain ⟨e, rfl, he⟩ := h
          simpa using he
      | fatal =>
          obtain ⟨e, rfl, he⟩ := h
          simpa using he

end Settles

end Fallible
