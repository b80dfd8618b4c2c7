import ThreatHunting.Lib.Procedure
import ThreatHunting.Lib.Refinement

/-!
# ThreatHunting.Lib.Ownership

Clients that work on resources of their own. A client acquires a resource that nobody has
taken; from then on no other client changes what concerns it. `Minds` is `Safe` with that
discipline in place of a rely: the rest of a client sees its own resources as it left them,
whatever the others do. In every pool of such clients the resources in hand are disjoint.
-/

namespace Store

/-- What concerns each resource of a history, which resources are taken, and what holds throughout. -/
structure Estate {σ : Type} (S : Signature σ) (R V : Type) where
  admits : List (Event S) → Event S → Prop
  inv : History S → Prop
  view : R → History S → V
  taken : R → History S → Prop

namespace Estate

variable {σ R V : Type} {S : Signature σ}

/-- What others do between two steps of a client that owns the resources `own`. -/
structure Undisturbed (E : Estate S R V) (own : Set R) (h h' : History S) : Prop where
  past : h.past <:+ h'.past
  view : ∀ r ∈ own, E.view r h' = E.view r h
  taken : ∀ r, E.taken r h → E.taken r h'

theorem Undisturbed.refl (E : Estate S R V) (own : Set R) (h : History S) : E.Undisturbed own h h :=
  ⟨List.suffix_refl _, fun _ _ => rfl, fun _ ht => ht⟩

theorem Undisturbed.trans {E : Estate S R V} {own : Set R} {h₁ h₂ h₃ : History S}
    (h : E.Undisturbed own h₁ h₂) (h' : E.Undisturbed own h₂ h₃) : E.Undisturbed own h₁ h₃ :=
  ⟨h.past.trans h'.past, fun r hr => (h'.view r hr).trans (h.view r hr), fun r ht => h'.taken r (h.taken r ht)⟩

/-- What an event of a client that owned `own` and then owns `own'` does: it keeps the
invariant, changes nothing about the resources of others, and acquires only free ones. -/
structure Conducts (E : Estate S R V) (own own' : Set R) (h h' : History S) : Prop where
  inv : E.inv h'
  view : ∀ r, r ∉ own' → E.view r h' = E.view r h
  acquired : ∀ r ∈ own', r ∉ own → ¬E.taken r h
  owned : ∀ r ∈ own', E.taken r h'
  taken : ∀ r, E.taken r h → E.taken r h'

end Estate

namespace Program

variable {σ R V α β : Type} {S : Signature σ}

/-- Started at `h` with the resources `own`, the program does only what its resources entitle it
to, and returns a value only where `Q` holds of it, its resources and the history. -/
def Minds (E : Estate S R V) :
    Program S α → Set R → (α → Set R → History S → Prop) → History S → Prop
  | .pure a, own, Q, h => Q a own h
  | .ask q k, own, Q, h => ∀ h', E.Undisturbed own h h' → E.inv h' → ∀ a, E.admits h'.past (.answered q a) →
      ∃ own', E.Conducts own own' h' (h'.answer q a) ∧ Minds E (k a) own' Q (h'.answer q a)
  | .read k, own, Q, h => ∀ h', E.Undisturbed own h h' → E.inv h' → Minds E (k h'.now) own Q h'
  | .commit t k, own, Q, h => ∀ h', E.Undisturbed own h h' → E.inv h' →
      (∀ s, S.effect t h'.now = some s → E.admits h'.past (.committed t h'.now s) →
        ∃ own', E.Conducts own own' h' (h'.commit t s) ∧ Minds E (k h'.now true) own' Q (h'.commit t s)) ∧
      (S.effect t h'.now = none → Minds E (k h'.now false) own Q h')
  | .halt, _, _, _ => True

variable {E : Estate S R V}

theorem Minds.mono {Q Q' : α → Set R → History S → Prop} (hQ : ∀ a own h, Q a own h → Q' a own h) :
    ∀ {p : Program S α} {own : Set R} {h : History S}, p.Minds E own Q h → p.Minds E own Q' h
  | .pure _, _, _, hp => hQ _ _ _ hp
  | .ask _ _, _, _, hp => fun h' hu hI a ha =>
      let ⟨own', hc, hk⟩ := hp h' hu hI a ha
      ⟨own', hc, hk.mono hQ⟩
  | .read _, _, _, hp => fun h' hu hI => (hp h' hu hI).mono hQ
  | .commit _ _, _, _, hp => fun h' hu hI =>
      ⟨fun s htx ha =>
        let ⟨own', hc, hk⟩ := (hp h' hu hI).1 s htx ha
        ⟨own', hc, hk.mono hQ⟩,
       fun htx => ((hp h' hu hI).2 htx).mono hQ⟩
  | .halt, _, _, _ => trivial

theorem Minds.bind {f : α → Program S β} {Q : β → Set R → History S → Prop} :
    ∀ {p : Program S α} {own : Set R} {h : History S},
      p.Minds E own (fun a own' h' => (f a).Minds E own' Q h') h → (p.bind f).Minds E own Q h
  | .pure _, _, _, hp => hp
  | .ask _ _, _, _, hp => fun h' hu hI a ha =>
      let ⟨own', hc, hk⟩ := hp h' hu hI a ha
      ⟨own', hc, hk.bind⟩
  | .read _, _, _, hp => fun h' hu hI => (hp h' hu hI).bind
  | .commit _ _, _, _, hp => fun h' hu hI =>
      ⟨fun s htx ha =>
        let ⟨own', hc, hk⟩ := (hp h' hu hI).1 s htx ha
        ⟨own', hc, hk.bind⟩,
       fun htx => ((hp h' hu hI).2 htx).bind⟩
  | .halt, _, _, _ => trivial

/-- What others do does not keep a client from minding its resources. -/
theorem Minds.stable {Q : α → Set R → History S → Prop}
    (hQ : ∀ a own h h', E.Undisturbed own h h' → Q a own h → Q a own h') :
    ∀ {p : Program S α} {own : Set R} {h h' : History S},
      p.Minds E own Q h → E.Undisturbed own h h' → p.Minds E own Q h'
  | .pure _, _, _, _, hp, hu => hQ _ _ _ _ hu hp
  | .ask _ _, _, _, _, hp, hu => fun h'' hu' => hp h'' (hu.trans hu')
  | .read _, _, _, _, hp, hu => fun h'' hu' => hp h'' (hu.trans hu')
  | .commit _ _, _, _, _, hp, hu => fun h'' hu' => hp h'' (hu.trans hu')
  | .halt, _, _, _, _, _ => trivial

/-- What a finished program is known to have established. -/
theorem Minds.of_pure {Q : α → Set R → History S → Prop} {a : α} {own : Set R} {h : History S}
    (hp : (Program.pure a : Program S α).Minds E own Q h) : Q a own h := hp

/-- What one step establishes. -/
theorem Minds.step {p p' : Program S α} {own : Set R} {Q : α → Set R → History S → Prop}
    {h h' : History S} (hI : E.inv h) (hp : p.Minds E own Q h) (ha : Admitted E.admits h'.past)
    (st : Step p h p' h') :
    E.inv h' ∧ ∃ own', p'.Minds E own' Q h' ∧ (h' = h ∧ own' = own ∨ E.Conducts own own' h h') := by
  have hu := Estate.Undisturbed.refl E own h
  cases st with
  | ask a =>
      obtain ⟨own', hc, hk⟩ := hp h hu hI a ha.1
      exact ⟨hc.inv, own', hk, .inr hc⟩
  | read => exact ⟨hI, own, hp h hu hI, .inl ⟨rfl, rfl⟩⟩
  | accept htx =>
      obtain ⟨own', hc, hk⟩ := (hp h hu hI).1 _ htx ha.1
      exact ⟨hc.inv, own', hk, .inr hc⟩
  | refuse htx => exact ⟨hI, own, (hp h hu hI).2 htx, .inl ⟨rfl, rfl⟩⟩

end Program

/-! ### Procedures -/

namespace Proc

variable {σ R V μ ε α β : Type} {S : Signature σ} {E : Estate S R V}

/-- The postcondition of a program that `Q` and `X` are of the procedure's two endings. -/
def ending (Q : α → μ → Set R → History S → Prop) (X : ε → μ → Set R → History S → Prop) :
    Except ε α × μ → Set R → History S → Prop
  | (.ok a, m), own, h => Q a m own h
  | (.error e, m), own, h => X e m own h

/-- Started with memory `m` and the resources `own` at `h`, the procedure minds its resources,
returns only where `Q` holds and raises only where `X` holds. -/
def Minds (E : Estate S R V) (p : Proc S μ ε α) (m : μ) (own : Set R) (h : History S)
    (Q : α → μ → Set R → History S → Prop) (X : ε → μ → Set R → History S → Prop) : Prop :=
  (p m).Minds E own (ending Q X) h

variable {m : μ} {own : Set R} {h : History S} {Q T : α → μ → Set R → History S → Prop}
  {X Y : ε → μ → Set R → History S → Prop}

theorem Minds.mono {p : Proc S μ ε α} (hp : p.Minds E m own h Q X)
    (hQ : ∀ a m own h, Q a m own h → T a m own h) (hX : ∀ e m own h, X e m own h → Y e m own h) :
    p.Minds E m own h T Y := by
  refine Program.Minds.mono ?_ hp
  rintro ⟨r, m'⟩ own' h' hr
  cases r with
  | ok a => exact hQ _ _ _ _ hr
  | error e => exact hX _ _ _ _ hr

theorem minds_pure {a : α} (hQ : Q a m own h) : (Pure.pure a : Proc S μ ε α).Minds E m own h Q X := hQ

theorem minds_throw {e : ε} (hX : X e m own h) : (throw e : Proc S μ ε α).Minds E m own h Q X := hX

theorem minds_ofExcept {x : Except ε α} (hQ : ∀ a, x = .ok a → Q a m own h)
    (hX : ∀ e, x = .error e → X e m own h) : (ofExcept x : Proc S μ ε α).Minds E m own h Q X := by
  cases x with
  | ok a => exact hQ a rfl
  | error e => exact hX e rfl

/-- Sequencing through an intermediate assertion. -/
theorem Minds.seq {p : Proc S μ ε α} {f : α → Proc S μ ε β} {Q : β → μ → Set R → History S → Prop}
    (hp : p.Minds E m own h T X) (hf : ∀ a m' own' h', T a m' own' h' → (f a).Minds E m' own' h' Q X) :
    (p >>= f).Minds E m own h Q X := by
  refine Program.Minds.bind (Program.Minds.mono ?_ hp)
  rintro ⟨r, m'⟩ own' h' hr
  cases r with
  | ok a => exact hf _ _ _ _ hr
  | error e => exact hr

theorem Minds.handle {p : Proc S μ ε α} {handler : ε → Proc S μ ε α} (hp : p.Minds E m own h Q Y)
    (he : ∀ e m' own' h', Y e m' own' h' → (handler e).Minds E m' own' h' Q X) :
    (p.handle handler).Minds E m own h Q X := by
  refine Program.Minds.bind (Program.Minds.mono ?_ hp)
  rintro ⟨r, m'⟩ own' h' hr
  cases r with
  | ok a => exact hr
  | error e => exact he _ _ _ _ hr

theorem minds_get {Q : μ → μ → Set R → History S → Prop} (hQ : Q m m own h) :
    (get : Proc S μ ε μ).Minds E m own h Q X := hQ

theorem minds_modify {f : μ → μ} {Q : Unit → μ → Set R → History S → Prop} (hQ : Q () (f m) own h) :
    (modify f : Proc S μ ε Unit).Minds E m own h Q X := hQ

theorem minds_ask {q : S.Question} {Q : S.Answer q → μ → Set R → History S → Prop}
    (hQ : ∀ h', E.Undisturbed own h h' → E.inv h' → ∀ a, E.admits h'.past (.answered q a) →
      ∃ own', E.Conducts own own' h' (h'.answer q a) ∧ Q a m own' (h'.answer q a)) :
    (ask q : Proc S μ ε _).Minds E m own h Q X := hQ

theorem minds_read {Q : σ → μ → Set R → History S → Prop}
    (hQ : ∀ h', E.Undisturbed own h h' → E.inv h' → Q h'.now m own h') :
    (read : Proc S μ ε σ).Minds E m own h Q X := hQ

theorem minds_commit {t : S.Transaction} {Q : σ × Bool → μ → Set R → History S → Prop}
    (hacc : ∀ h', E.Undisturbed own h h' → E.inv h' → ∀ s, S.effect t h'.now = some s →
      E.admits h'.past (.committed t h'.now s) →
      ∃ own', E.Conducts own own' h' (h'.commit t s) ∧ Q (h'.now, true) m own' (h'.commit t s))
    (href : ∀ h', E.Undisturbed own h h' → E.inv h' → S.effect t h'.now = none → Q (h'.now, false) m own h') :
    (commit t : Proc S μ ε _).Minds E m own h Q X :=
  fun h' hu hI => ⟨hacc h' hu hI, href h' hu hI⟩

theorem minds_ite {c : Prop} [Decidable c] {p q : Proc S μ ε α} (hp : c → p.Minds E m own h Q X)
    (hq : ¬c → q.Minds E m own h Q X) : (if c then p else q).Minds E m own h Q X := by
  by_cases hc : c
  · simpa only [hc, if_true] using hp hc
  · simpa only [hc, if_false] using hq hc

theorem Minds.program {p : Proc S μ ε α} (hp : p.Minds E m own h Q X) : (p m).Minds E own (ending Q X) h := hp

-- From here on a procedure is walked by its rules: unfolding its postcondition would run it.
attribute [irreducible] Minds Program.Minds

/-! #### Assertions a procedure keeps -/

/-- What others do between two steps does not falsify the assertion. -/
def Steady (E : Estate S R V) (P : Set R → History S → Prop) : Prop :=
  ∀ {own h h'}, E.Undisturbed own h h' → P own h → P own h'

/-- Started where `P` holds, the procedure minds its resources and ends where `P` holds, however it ends. -/
def Retains (E : Estate S R V) (P : Set R → History S → Prop) (p : Proc S μ ε α) : Prop :=
  ∀ m own h, P own h → p.Minds E m own h (fun _ _ => P) fun _ _ => P

namespace Retains

variable {P : Set R → History S → Prop}

theorem pure (a : α) : Retains E P (Pure.pure a : Proc S μ ε α) := fun _ _ _ hP => minds_pure hP

theorem throw (e : ε) : Retains E P (Proc.throw e : Proc S μ ε α) := fun _ _ _ hP => minds_throw hP

theorem ofExcept (x : Except ε α) : Retains E P (Proc.ofExcept x : Proc S μ ε α) :=
  fun _ _ _ hP => minds_ofExcept (fun _ _ => hP) fun _ _ => hP

theorem bind {p : Proc S μ ε α} {f : α → Proc S μ ε β} (hp : Retains E P p) (hf : ∀ a, Retains E P (f a)) :
    Retains E P (p >>= f) :=
  fun m own h hP => Minds.seq (hp m own h hP) fun a m' own' h' hP' => hf a m' own' h' hP'

theorem handle {p : Proc S μ ε α} {handler : ε → Proc S μ ε α} (hp : Retains E P p)
    (he : ∀ e, Retains E P (handler e)) : Retains E P (p.handle handler) :=
  fun m own h hP => Minds.handle (hp m own h hP) fun e m' own' h' hP' => he e m' own' h' hP'

theorem ite {c : Prop} [Decidable c] {p q : Proc S μ ε α} (hp : Retains E P p) (hq : Retains E P q) :
    Retains E P (if c then p else q) :=
  fun m own h hP => minds_ite (fun _ => hp m own h hP) fun _ => hq m own h hP

theorem read (hs : Steady E P) : Retains E P (Proc.read : Proc S μ ε σ) :=
  fun _ _ _ hP => minds_read fun _ hu _ => hs hu hP

theorem ask {q : S.Question} (hs : Steady E P) (hq : ∀ {own h a}, P own h → E.inv h →
    E.admits h.past (.answered q a) → E.Conducts own own h (h.answer q a) ∧ P own (h.answer q a)) :
    Retains E P (Proc.ask q : Proc S μ ε _) :=
  fun _ own _ hP => minds_ask fun _ hu hI _ ha => ⟨own, hq (hs hu hP) hI ha⟩

theorem commit {t : S.Transaction} (hs : Steady E P) (ht : ∀ {own h s}, P own h → E.inv h →
    S.effect t h.now = some s → E.Conducts own own h (h.commit t s) ∧ P own (h.commit t s)) :
    Retains E P (Proc.commit t : Proc S μ ε _) :=
  fun _ own _ hP => minds_commit (fun _ hu hI _ htx _ => ⟨own, ht (hs hu hP) hI htx⟩) fun _ hu _ _ => hs hu hP

end Retains

end Proc

/-! ### Pools -/

namespace Pool

open Program

variable {σ R V α : Type} {S : Signature σ} {E : Estate S R V} {starts : Program S α → Prop} {s₀ : σ}

/-- The clients mind the resources in hand, which are disjoint and taken. -/
structure Owned (E : Estate S R V) (Q : α → Set R → History S → Prop) (h : History S)
    (ps : List (Program S α)) (owns : List (Set R)) : Prop where
  minds : List.Forall₂ (fun own p => p.Minds E own Q h) owns ps
  disjoint : owns.Pairwise Disjoint
  taken : ∀ own ∈ owns, ∀ r ∈ own, E.taken r h

/-- The step of one client, seen by one whose resources are others. -/
theorem undisturbed_of_conducts {own own' other : Set R} {p p' : Program S α} {h h' : History S}
    (st : Step p h p' h') (hc : h' = h ∧ own' = own ∨ E.Conducts own own' h h')
    (hd : Disjoint own other) (ht : ∀ r ∈ other, E.taken r h) :
    E.Undisturbed other h h' ∧ Disjoint own' other := by
  rcases hc with ⟨rfl, rfl⟩ | hc
  · exact ⟨.refl E other h', hd⟩
  · have hd' : Disjoint own' other := by
      rw [Set.disjoint_left] at hd ⊢
      intro r hr hr'
      by_cases hown : r ∈ own
      · exact hd hown hr'
      · exact hc.acquired r hr hown (ht r hr')
    refine ⟨⟨?_, fun r hr => hc.view r fun hr' => Set.disjoint_left.mp hd' hr' hr, hc.taken⟩, hd'⟩
    rcases st.past with rfl | ⟨e, he⟩
    · exact List.suffix_refl _
    · rw [he]
      exact List.suffix_cons _ _

theorem forall₂_imp_mem {γ δ : Type} {P Q : γ → δ → Prop} {as : List γ} {bs : List δ}
    (h : List.Forall₂ P as bs) (hPQ : ∀ a b, a ∈ as → P a b → Q a b) : List.Forall₂ Q as bs := by
  induction h with
  | nil => exact .nil
  | cons hab _ ih =>
      exact .cons (hPQ _ _ List.mem_cons_self hab) (ih fun a b ha => hPQ a b (List.mem_cons_of_mem _ ha))

/-- **Soundness of ownership.** If every client starts without resources and minds those it
acquires, then in every interleaving the invariant holds, and the clients mind disjoint
resources. -/
theorem Run.owned {Q : α → Set R → History S → Prop}
    (hQ : ∀ a own h h', E.Undisturbed own h h' → Q a own h → Q a own h')
    (hstarts : ∀ p, starts p → ∀ h, E.inv h → p.Minds E ∅ Q h) (h₀ : E.inv ⟨s₀, []⟩)
    {h : History S} {ps : List (Program S α)} (run : Run starts s₀ h ps)
    (ha : Admitted E.admits h.past) : E.inv h ∧ ∃ owns, Owned E Q h ps owns := by
  induction run with
  | init => exact ⟨h₀, [], .nil, .nil, by simp⟩
  | start run hp ih =>
      obtain ⟨hI, owns, ho⟩ := ih ha
      refine ⟨hI, ∅ :: owns, .cons (hstarts _ hp _ hI) ho.minds, ?_, ?_⟩
      · exact List.pairwise_cons.mpr ⟨fun own _ => Set.empty_disjoint own, ho.disjoint⟩
      · intro own hown r hr
        rcases List.mem_cons.mp hown with rfl | hown
        · exact absurd hr (Set.notMem_empty r)
        · exact ho.taken own hown r hr
  | @step h h' ps qs p p' run st ih =>
      obtain ⟨hI, owns, ho⟩ := ih (admitted_of_step st ha)
      obtain ⟨fronts, own, backs, rfl, hfront, hp, hback⟩ := forall₂_split ho.minds
      obtain ⟨hI', own', hp', hc⟩ := hp.step hI ha st
      obtain ⟨hdf, hdb, hcross⟩ := List.pairwise_append.mp ho.disjoint
      obtain ⟨hown, hdb⟩ := List.pairwise_cons.mp hdb
      have hfronts : ∀ other ∈ fronts, E.Undisturbed other h h' ∧ Disjoint own' other := by
        intro other hother
        exact undisturbed_of_conducts st hc (hcross other hother own List.mem_cons_self).symm
          (ho.taken other (by simp [hother]))
      have hbacks : ∀ other ∈ backs, E.Undisturbed other h h' ∧ Disjoint own' other := by
        intro other hother
        exact undisturbed_of_conducts st hc (hown other hother) (ho.taken other (by simp [hother]))
      refine ⟨hI', fronts ++ own' :: backs, forall₂_join ?_ hp' ?_, ?_, ?_⟩
      · exact forall₂_imp_mem hfront fun other q hother hq => hq.stable hQ (hfronts other hother).1
      · exact forall₂_imp_mem hback fun other q hother hq => hq.stable hQ (hbacks other hother).1
      · refine List.pairwise_append.mpr ⟨hdf, List.pairwise_cons.mpr ⟨fun o ho' => (hbacks o ho').2, hdb⟩, ?_⟩
        intro other hother o ho'
        rcases List.mem_cons.mp ho' with rfl | ho'
        · exact (hfronts other hother).2.symm
        · exact hcross other hother o (List.mem_cons_of_mem _ ho')
      · intro o ho' r hr
        rw [List.mem_append, List.mem_cons] at ho'
        rcases ho' with ho' | rfl | ho'
        · exact (hfronts o ho').1.taken r (ho.taken o (by simp [ho']) r hr)
        · rcases hc with ⟨rfl, rfl⟩ | hc
          · exact ho.taken o (by simp) r hr
          · exact hc.owned r hr
        · exact (hbacks o ho').1.taken r (ho.taken o (by simp [ho']) r hr)

end Pool

end Store
