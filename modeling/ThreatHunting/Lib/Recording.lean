import ThreatHunting.Lib.Procedure

/-!
# ThreatHunting.Lib.Recording

Clients that only add events of one kind to a history. `P` says which events may be added after
which; `Records` says that a procedure adds no others, and what it knows of the history when it
returns. A run of any number of such clients is a history of such events.
-/

namespace Store

variable {σ : Type} {S : Signature σ}

/-- The store was `s` at some time. -/
def Visited (s₀ : σ) (past : List (Event S)) (s : σ) : Prop := ∃ past', past' <:+ past ∧ Leads s₀ past' s

theorem Visited.later {s₀ s : σ} {past past' : List (Event S)} (h : Visited s₀ past s) (hs : past <:+ past') :
    Visited s₀ past' s := by
  obtain ⟨past₀, hp, hl⟩ := h
  exact ⟨past₀, hp.trans hs, hl⟩

/-- What holds at one time and is kept by every event since then holds now. -/
theorem Leads.since {s₀ s₁ s : σ} {past₀ past : List (Event S)} {P : List (Event S) → σ → Prop}
    (hl : Leads s₀ past s) (hp : past₀ <:+ past) (hl₀ : Leads s₀ past₀ s₁) (base : P past₀ s₁)
    (answered : ∀ es s q a, past₀ <:+ es → .answered q a :: es <:+ past → P es s → P (.answered q a :: es) s)
    (committed : ∀ es s t s', past₀ <:+ es → .committed t s s' :: es <:+ past → S.effect t s = some s' →
      P es s → P (.committed t s s' :: es) s') : P past s := by
  induction hl with
  | nil =>
      obtain rfl := List.suffix_nil.mp hp
      rw [hl₀.unique .nil]
      exact base
  | @answered es s q a hl ih =>
      rcases List.suffix_cons_iff.mp hp with rfl | hp
      · rw [hl₀.unique (.answered hl)]
        exact base
      · refine answered es s q a hp (List.suffix_refl _) (ih hp ?_ ?_)
        · exact fun es' s' q' a' h hs => answered es' s' q' a' h (hs.trans (List.suffix_cons _ _))
        · exact fun es' s' t s'' h hs => committed es' s' t s'' h (hs.trans (List.suffix_cons _ _))
  | @committed es s t s' hl htx ih =>
      rcases List.suffix_cons_iff.mp hp with rfl | hp
      · have hs := hl₀.unique (.committed hl htx)
        subst hs
        exact base
      · refine committed es s t s' hp (List.suffix_refl _) htx (ih hp ?_ ?_)
        · exact fun es' s' q' a' h hs => answered es' s' q' a' h (hs.trans (List.suffix_cons _ _))
        · exact fun es' s' t s'' h hs => committed es' s' t s'' h (hs.trans (List.suffix_cons _ _))

/-- Clients add only events that `P` allows, and may rely on the others to only add events. -/
def recording (s₀ : σ) (P : List (Event S) → Event S → Prop) : Regime S where
  admits _ _ := True
  inv h := Leads s₀ h.past h.now ∧ Admitted P h.past
  rely h h' := h.past <:+ h'.past
  guar h h' := h.past <:+ h'.past
  rely_refl _ := List.suffix_refl _
  rely_trans := List.IsSuffix.trans

/-- A run of clients that add only events `P` allows is a history of such events. -/
theorem runs_record {α : Type} {starts : Program S α → Prop} {s₀ : σ} {P : List (Event S) → Event S → Prop}
    (hstarts : ∀ p, starts p → ∀ h, p.Safe (recording s₀ P) (fun _ _ => True) h) {h : History S}
    {ps : List (Program S α)} (run : Pool.Run starts s₀ h ps) : Leads s₀ h.past h.now ∧ Admitted P h.past :=
  (run.sound (Γ := recording s₀ P) (fun _ _ h => h) (fun p hp h _ => hstarts p hp h) ⟨.nil, trivial⟩
    (.of_forall (fun _ _ => trivial) _)).1

namespace Proc

variable {μ ε α β : Type} {s₀ : σ} {P : List (Event S) → Event S → Prop} {past : List (Event S)}

variable (s₀ P) in
/-- After `past`, the procedure adds only events `P` allows; what it returns satisfies `Q` with the
history at its return. -/
def Records (past : List (Event S)) (p : Proc S μ ε α) (Q : α → List (Event S) → Prop) : Prop :=
  ∀ m h, past <:+ h.past → p.Safe (recording s₀ P) m h
    (fun a _ h' => past <:+ h'.past ∧ Q a h'.past) fun _ _ h' => past <:+ h'.past

namespace Records

variable {Q Q' : α → List (Event S) → Prop} {R : β → List (Event S) → Prop}

theorem pure {a : α} (hQ : ∀ past', past <:+ past' → Q a past') :
    Records s₀ P past (Pure.pure a : Proc S μ ε α) Q :=
  fun _ h hs => safe_pure ⟨hs, hQ h.past hs⟩

theorem throw {e : ε} : Records s₀ P past (Proc.throw e : Proc S μ ε α) Q :=
  fun _ _ hs => safe_throw hs

theorem mono {p : Proc S μ ε α} (hp : Records s₀ P past p Q)
    (hQ : ∀ a past', past <:+ past' → Q a past' → Q' a past') : Records s₀ P past p Q' :=
  fun m h hs => (hp m h hs).mono (fun a _ h' ⟨hs', hq⟩ => ⟨hs', hQ a h'.past hs' hq⟩) fun _ _ _ h => h

theorem bind {p : Proc S μ ε α} {f : α → Proc S μ ε β} (hp : Records s₀ P past p Q)
    (hf : ∀ a past', past <:+ past' → Q a past' → Records s₀ P past' (f a) R) :
    Records s₀ P past (p >>= f) R := by
  intro m h hs
  refine Safe.seq (hp m h hs) ?_
  intro a m' h' ⟨hs', hq⟩
  refine (hf a h'.past hs' hq m' h' (List.suffix_refl _)).mono ?_ ?_
  · intro b _ h'' ⟨hs'', hr⟩
    exact ⟨hs'.trans hs'', hr⟩
  · intro _ _ h'' hs''
    exact hs'.trans hs''

/-- Sequencing after a step of which only the returned value matters. -/
theorem seq {p : Proc S μ ε α} {f : α → Proc S μ ε β} {T : α → Prop}
    (hp : Records s₀ P past p fun a _ => T a) (hf : ∀ a, T a → Records s₀ P past (f a) R) :
    Records s₀ P past (p >>= f) R := by
  intro m h hs
  refine Safe.seq (hp m h hs) ?_
  intro a m' h' ⟨hs', ha⟩
  exact hf a ha m' h' hs'

theorem handle {p : Proc S μ ε α} {handler : ε → Proc S μ ε α} (hp : Records s₀ P past p Q)
    (he : ∀ e past', past <:+ past' → Records s₀ P past' (handler e) Q) :
    Records s₀ P past (p.handle handler) Q := by
  intro m h hs
  refine Safe.handle (hp m h hs) ?_
  intro e m' h' hs'
  refine (he e h'.past hs' m' h' (List.suffix_refl _)).mono ?_ ?_
  · intro b _ h'' ⟨hs'', hr⟩
    exact ⟨hs'.trans hs'', hr⟩
  · intro _ _ h'' hs''
    exact hs'.trans hs''

theorem ite {c : Prop} [Decidable c] {p q : Proc S μ ε α} (hp : c → Records s₀ P past p Q)
    (hq : ¬c → Records s₀ P past q Q) : Records s₀ P past (if c then p else q) Q :=
  fun m h hs => safe_ite (fun hc => hp hc m h hs) fun hc => hq hc m h hs

theorem ofExcept {x : Except ε α} : Records s₀ P past (Proc.ofExcept x : Proc S μ ε α) fun a _ => x = .ok a := by
  cases x with
  | ok a => exact pure fun _ _ => rfl
  | error e => exact throw

/-- An answer `P` always allows. -/
theorem ask {q : S.Question} (hP : ∀ past a, P past (.answered q a)) :
    Records s₀ P past (Proc.ask q : Proc S μ ε _) fun _ _ => True := by
  intro m h hs
  refine safe_ask ?_
  intro h' hr ⟨hl, ha⟩ a _
  have hs' : past <:+ (h'.answer q a).past := (hs.trans hr).trans (List.suffix_cons _ _)
  exact ⟨⟨.answered hl, hP _ a, ha⟩, List.suffix_cons _ _, hs', trivial⟩

/-- What is read has been stored. -/
theorem read : Records s₀ P past (Proc.read : Proc S μ ε σ) fun s past' => Visited s₀ past' s := by
  intro m h hs
  refine safe_read ?_
  intro h' hr ⟨hl, _⟩
  exact ⟨hs.trans hr, h'.past, List.suffix_refl _, hl⟩

/-- A transaction `P` allows wherever it is accepted; it is recorded then, and refused otherwise. -/
theorem commit_recorded {t : S.Transaction}
    (ht : ∀ past' s s', past <:+ past' → Leads s₀ past' s → S.effect t s = some s' →
      P past' (.committed t s s')) :
    Records s₀ P past (Proc.commit t : Proc S μ ε _) fun r past' =>
      (∃ s s' es, .committed t s s' :: es <:+ past') ∨ r.2 = false ∧ S.effect t r.1 = none := by
  intro m h hs
  refine safe_commit ?_ ?_
  · intro h' hr ⟨hl, ha⟩ s htx _
    have hs' : past <:+ (h'.commit t s).past := (hs.trans hr).trans (List.suffix_cons _ _)
    refine ⟨⟨.committed hl htx, ht h'.past h'.now s (hs.trans hr) hl htx, ha⟩, List.suffix_cons _ _, hs', ?_⟩
    exact .inl ⟨h'.now, s, h'.past, List.suffix_refl _⟩
  · intro h' hr _ hrefused
    exact ⟨hs.trans hr, .inr ⟨rfl, hrefused⟩⟩

/-- A transaction `P` allows wherever it is accepted. -/
theorem commit {t : S.Transaction}
    (ht : ∀ past' s s', past <:+ past' → Leads s₀ past' s → S.effect t s = some s' →
      P past' (.committed t s s')) :
    Records s₀ P past (Proc.commit t : Proc S μ ε _) fun _ _ => True :=
  (commit_recorded ht).mono fun _ _ _ _ => trivial

end Records

end Proc

end Store
