import Mathlib

/-!
# ThreatHunting.Lib.Program

A small calculus for clients of one shared store. A `Program` is a tree of what a
client can do between two pure computations: ask its environment a question, read
the store, attempt one atomic transaction, or never be heard of again. The tree
fixes exactly where another client may intervene and where a crash may fall.

A `History` is the store together with every answer given and every transaction
accepted so far, so that a property of a run ("at most `n` calls were made") is a
property of its last history.

`Safe` is a rely/guarantee weakest precondition. It is defined by recursion on the
program, quantifies over every history the environment may move to, and composes
along `bind`. Two ways of running programs use it:

* `Pool.Run`: any number of programs, interleaved in any order;
* `Session.Run`: one program at a time, each abandoned at an arbitrary point (a
  crash) and followed by a fresh one, with an environment that may commit in
  between.
-/

namespace Store

/-- The questions a program may ask, with the type of each answer, and the transactions
it may attempt on the store `σ`, with their effect; `none` is a refusal. -/
structure Signature (σ : Type) where
  Question : Type
  Answer : Question → Type
  Transaction : Type
  effect : Transaction → σ → Option σ

/-- One thing that happened: an answer, or an accepted transaction. -/
inductive Event {σ : Type} (S : Signature σ)
  | answered (q : S.Question) (a : S.Answer q)
  | committed (t : S.Transaction) (before after : σ)

/-- The store, and the events so far, latest first. -/
structure History {σ : Type} (S : Signature σ) where
  now : σ
  past : List (Event S)

namespace History

variable {σ : Type} {S : Signature σ}

/-- The history in which `q` has just been answered by `a`. -/
def answer (h : History S) (q : S.Question) (a : S.Answer q) : History S :=
  ⟨h.now, .answered q a :: h.past⟩

/-- The history in which the transaction `t` has just moved the store to `s`. -/
def commit (h : History S) (t : S.Transaction) (s : σ) : History S :=
  ⟨s, .committed t h.now s :: h.past⟩

@[simp] theorem now_answer (h : History S) (q : S.Question) (a : S.Answer q) :
    (h.answer q a).now = h.now := rfl
@[simp] theorem past_answer (h : History S) (q : S.Question) (a : S.Answer q) :
    (h.answer q a).past = .answered q a :: h.past := rfl
@[simp] theorem now_commit (h : History S) (t : S.Transaction) (s : σ) : (h.commit t s).now = s := rfl
@[simp] theorem past_commit (h : History S) (t : S.Transaction) (s : σ) :
    (h.commit t s).past = .committed t h.now s :: h.past := rfl

end History

variable {σ : Type} {S : Signature σ} {α β : Type}

/-- Every event met the condition `P`, which may look at the events before it. -/
def Admitted (P : List (Event S) → Event S → Prop) : List (Event S) → Prop
  | [] => True
  | e :: past => P past e ∧ Admitted P past

instance Admitted.decidable {P : List (Event S) → Event S → Prop} [∀ past e, Decidable (P past e)] :
    ∀ past, Decidable (Admitted P past)
  | [] => isTrue trivial
  | e :: past =>
      have := Admitted.decidable (P := P) past
      inferInstanceAs (Decidable (P past e ∧ Admitted P past))

/-- The events lead from the store `s₀` to the store `s`: each transaction starts where
the one before it ended and has its effect. -/
inductive Leads (s₀ : σ) : List (Event S) → σ → Prop
  | nil : Leads s₀ [] s₀
  | answered {es s q a} : Leads s₀ es s → Leads s₀ (.answered q a :: es) s
  | committed {es s t s'} : Leads s₀ es s → S.effect t s = some s' →
      Leads s₀ (.committed t s s' :: es) s'

/-- The events determine the store they lead to. -/
theorem Leads.unique {s₀ s s' : σ} {past : List (Event S)} (h : Leads s₀ past s) (h' : Leads s₀ past s') :
    s' = s := by
  induction h with
  | nil =>
      cases h'
      rfl
  | answered _ ih =>
      cases h' with
      | answered h' => exact ih h'
  | committed _ _ _ =>
      cases h'
      rfl

theorem Admitted.of_forall {P : List (Event S) → Event S → Prop} (h : ∀ past e, P past e) :
    ∀ past, Admitted P past
  | [] => trivial
  | e :: past => ⟨h past e, Admitted.of_forall h past⟩

/-- What is admitted of a history is admitted of its beginnings. -/
theorem Admitted.suffix {P : List (Event S) → Event S → Prop} {past past' : List (Event S)}
    (h : Admitted P past) (hs : past' <:+ past) : Admitted P past' := by
  induction past with
  | nil =>
      rw [List.suffix_nil.mp hs]
      trivial
  | cons e past ih =>
      rcases List.suffix_cons_iff.mp hs with rfl | hs
      · exact h
      · exact ih h.2 hs

/-- The beginnings of a history lead somewhere. -/
theorem Leads.suffix {s₀ s : σ} {past past' : List (Event S)} (h : Leads s₀ past s) (hs : past' <:+ past) :
    ∃ s', Leads s₀ past' s' := by
  induction h with
  | nil =>
      rw [List.suffix_nil.mp hs]
      exact ⟨s₀, .nil⟩
  | answered h ih =>
      rcases List.suffix_cons_iff.mp hs with rfl | hs
      · exact ⟨_, .answered h⟩
      · exact ih hs
  | committed h htx ih =>
      rcases List.suffix_cons_iff.mp hs with rfl | hs
      · exact ⟨_, .committed h htx⟩
      · exact ih hs

/-- A client of the store `σ`. A refused transaction leaves the store alone; its
continuation sees the store it ran against and whether it was accepted. -/
inductive Program {σ : Type} (S : Signature σ) (α : Type) : Type
  | pure (a : α)
  | ask (q : S.Question) (k : S.Answer q → Program S α)
  | read (k : σ → Program S α)
  | commit (t : S.Transaction) (k : σ → Bool → Program S α)
  | halt

/-- What one client assumes and promises: `admits` each event, the invariant of every
history, what the others may do between two of its steps, and what its own steps do. -/
structure Regime {σ : Type} (S : Signature σ) where
  admits : List (Event S) → Event S → Prop
  inv : History S → Prop
  rely : History S → History S → Prop
  guar : History S → History S → Prop
  rely_refl : ∀ h, rely h h
  rely_trans : ∀ {h₁ h₂ h₃}, rely h₁ h₂ → rely h₂ h₃ → rely h₁ h₃

/-- The regime that admits some events and otherwise demands and promises nothing. -/
def Regime.free {σ : Type} {S : Signature σ} (admits : List (Event S) → Event S → Prop) : Regime S where
  admits
  inv _ := True
  rely _ _ := True
  guar _ _ := True
  rely_refl _ := trivial
  rely_trans _ _ := trivial

namespace Program

/-- Run `f` on the value `p` returns. -/
def bind : Program S α → (α → Program S β) → Program S β
  | .pure a, f => f a
  | .ask q k, f => .ask q fun a => (k a).bind f
  | .read k, f => .read fun s => (k s).bind f
  | .commit t k, f => .commit t fun s ok => (k s ok).bind f
  | .halt, _ => .halt

/-! ### Single steps -/

/-- One step of one program. A program that has returned or halted takes none. -/
inductive Step : Program S α → History S → Program S α → History S → Prop
  | ask {q k h} (a : S.Answer q) : Step (.ask q k) h (k a) (h.answer q a)
  | read {k h} : Step (.read k) h (k h.now) h
  | accept {t k h s} : S.effect t h.now = some s → Step (.commit t k) h (k h.now true) (h.commit t s)
  | refuse {t k h} : S.effect t h.now = none → Step (.commit t k) h (k h.now false) h

/-- A step records at most one event. -/
theorem Step.past {p p' : Program S α} {h h' : History S} (st : Step p h p' h') :
    h' = h ∨ ∃ e, h'.past = e :: h.past := by
  cases st with
  | ask a => exact .inr ⟨_, rfl⟩
  | read => exact .inl rfl
  | accept htx => exact .inr ⟨_, rfl⟩
  | refuse htx => exact .inl rfl

theorem Step.leads {p p' : Program S α} {h h' : History S} {s₀ : σ}
    (st : Step p h p' h') (hl : Leads s₀ h.past h.now) : Leads s₀ h'.past h'.now := by
  cases st with
  | ask a => exact .answered hl
  | read => exact hl
  | accept htx => exact .committed hl htx
  | refuse htx => exact hl

/-! ### Rely/guarantee -/

/-- `Safe Γ p Q h`: started at `h`, whatever the environment does between steps within
the rely and the invariant, each event of `p` keeps the invariant and meets the
guarantee, and a value is returned only where `Q` holds. -/
def Safe (Γ : Regime S) : Program S α → (α → History S → Prop) → History S → Prop
  | .pure a, Q, h => Q a h
  | .ask q k, Q, h => ∀ h', Γ.rely h h' → Γ.inv h' → ∀ a, Γ.admits h'.past (.answered q a) →
      Γ.inv (h'.answer q a) ∧ Γ.guar h' (h'.answer q a) ∧ Safe Γ (k a) Q (h'.answer q a)
  | .read k, Q, h => ∀ h', Γ.rely h h' → Γ.inv h' → Safe Γ (k h'.now) Q h'
  | .commit t k, Q, h => ∀ h', Γ.rely h h' → Γ.inv h' →
      (∀ s, S.effect t h'.now = some s → Γ.admits h'.past (.committed t h'.now s) →
        Γ.inv (h'.commit t s) ∧ Γ.guar h' (h'.commit t s) ∧
          Safe Γ (k h'.now true) Q (h'.commit t s)) ∧
      (S.effect t h'.now = none → Safe Γ (k h'.now false) Q h')
  | .halt, _, _ => True

section Rules

variable {Γ : Regime S}

/-- The postcondition may be weakened. -/
theorem Safe.mono {Q Q' : α → History S → Prop} (hQ : ∀ a h, Q a h → Q' a h) :
    ∀ {p : Program S α} {h : History S}, Safe Γ p Q h → Safe Γ p Q' h
  | .pure _, _, hp => hQ _ _ hp
  | .ask _ _, _, hp => fun h' hr hI a ha =>
      let ⟨hI', hg, hk⟩ := hp h' hr hI a ha
      ⟨hI', hg, Safe.mono hQ hk⟩
  | .read _, _, hp => fun h' hr hI => Safe.mono hQ (hp h' hr hI)
  | .commit _ _, _, hp => fun h' hr hI =>
      ⟨fun s htx ha =>
        let ⟨hI', hg, hk⟩ := (hp h' hr hI).1 s htx ha
        ⟨hI', hg, Safe.mono hQ hk⟩,
       fun htx => Safe.mono hQ ((hp h' hr hI).2 htx)⟩
  | .halt, _, _ => trivial

/-- Sequencing: the rest must be safe wherever the first part may return. -/
theorem Safe.bind {f : α → Program S β} {Q : β → History S → Prop} :
    ∀ {p : Program S α} {h : History S},
      Safe Γ p (fun a h' => Safe Γ (f a) Q h') h → Safe Γ (p.bind f) Q h
  | .pure _, _, hp => hp
  | .ask _ _, _, hp => fun h' hr hI a ha =>
      let ⟨hI', hg, hk⟩ := hp h' hr hI a ha
      ⟨hI', hg, Safe.bind hk⟩
  | .read _, _, hp => fun h' hr hI => Safe.bind (hp h' hr hI)
  | .commit _ _, _, hp => fun h' hr hI =>
      ⟨fun s htx ha =>
        let ⟨hI', hg, hk⟩ := (hp h' hr hI).1 s htx ha
        ⟨hI', hg, Safe.bind hk⟩,
       fun htx => Safe.bind ((hp h' hr hI).2 htx)⟩
  | .halt, _, _ => trivial

/-- Interference within the rely keeps a program safe if it keeps its postcondition. -/
theorem Safe.stable {Q : α → History S → Prop}
    (hQ : ∀ a h h', Γ.rely h h' → Q a h → Q a h') :
    ∀ {p : Program S α} {h h' : History S}, Safe Γ p Q h → Γ.rely h h' → Safe Γ p Q h'
  | .pure _, _, _, hp, hr => hQ _ _ _ hr hp
  | .ask _ _, _, _, hp, hr => fun h'' hr' => hp h'' (Γ.rely_trans hr hr')
  | .read _, _, _, hp, hr => fun h'' hr' => hp h'' (Γ.rely_trans hr hr')
  | .commit _ _, _, _, hp, hr => fun h'' hr' => hp h'' (Γ.rely_trans hr hr')
  | .halt, _, _, _, _ => trivial

/-- What one step of a safe program establishes: the invariant, the guarantee if an
event was recorded, and safety of the rest. -/
theorem Safe.step {p p' : Program S α} {Q : α → History S → Prop} {h h' : History S}
    (hI : Γ.inv h) (hp : Safe Γ p Q h) (ha : Admitted Γ.admits h'.past) (st : Step p h p' h') :
    Γ.inv h' ∧ (h' = h ∨ Γ.guar h h') ∧ Safe Γ p' Q h' := by
  cases st with
  | ask a =>
      obtain ⟨hI', hg, hk⟩ := hp h (Γ.rely_refl h) hI a ha.1
      exact ⟨hI', .inr hg, hk⟩
  | read => exact ⟨hI, .inl rfl, hp h (Γ.rely_refl h) hI⟩
  | accept htx =>
      obtain ⟨hI', hg, hk⟩ := (hp h (Γ.rely_refl h) hI).1 _ htx ha.1
      exact ⟨hI', .inr hg, hk⟩
  | refuse htx => exact ⟨hI, .inl rfl, (hp h (Γ.rely_refl h) hI).2 htx⟩

end Rules

/-- Two postconditions of one program hold together. -/
theorem Safe.and {Γ : Regime S} {Q T : α → History S → Prop} :
    ∀ {p : Program S α} {h : History S}, Safe Γ p Q h → Safe Γ p T h → Safe Γ p (fun a h => Q a h ∧ T a h) h
  | .pure _, _, hp, hp' => ⟨hp, hp'⟩
  | .ask _ _, _, hp, hp' => fun h' hr hI a ha =>
      let ⟨hI', hg, hk⟩ := hp h' hr hI a ha
      ⟨hI', hg, hk.and (hp' h' hr hI a ha).2.2⟩
  | .read _, _, hp, hp' => fun h' hr hI => (hp h' hr hI).and (hp' h' hr hI)
  | .commit _ _, _, hp, hp' => fun h' hr hI =>
      ⟨fun s htx ha =>
        let ⟨hI', hg, hk⟩ := (hp h' hr hI).1 s htx ha
        ⟨hI', hg, hk.and ((hp' h' hr hI).1 s htx ha).2.2⟩,
       fun htx => ((hp h' hr hI).2 htx).and ((hp' h' hr hI).2 htx)⟩
  | .halt, _, _, _ => trivial

/-- Under a regime that demands nothing, every program is safe. -/
theorem safe_free {admits : List (Event S) → Event S → Prop} :
    ∀ (p : Program S α) (h : History S), Safe (.free admits) p (fun _ _ => True) h
  | .pure _, _ => trivial
  | .ask _ k, _ => fun _ _ _ a _ => ⟨trivial, trivial, safe_free (k a) _⟩
  | .read k, _ => fun h' _ _ => safe_free (k h'.now) h'
  | .commit _ k, _ => fun h' _ _ =>
      ⟨fun _ _ _ => ⟨trivial, trivial, safe_free (k h'.now true) _⟩, fun _ => safe_free (k h'.now false) h'⟩
  | .halt, _ => trivial

/-- The next step of a program when its question, if it asks one, is answered by `o`. -/
def next (o : ∀ q, S.Answer q) :
    Program S α → History S → Program S α × History S
  | .pure a, h => (.pure a, h)
  | .ask q k, h => (k (o q), h.answer q (o q))
  | .read k, h => (k h.now, h)
  | .commit t k, h =>
      match S.effect t h.now with
      | some s => (k h.now true, h.commit t s)
      | none => (k h.now false, h)
  | .halt, h => (.halt, h)

/-- `next` computes a step, or the program has none to take. -/
theorem next_step (o : ∀ q, S.Answer q) (p : Program S α) (h : History S) :
    p.next o h = (p, h) ∨ Step p h (p.next o h).1 (p.next o h).2 := by
  cases p with
  | pure a => exact .inl rfl
  | ask q k => exact .inr (.ask _)
  | read k => exact .inr .read
  | commit t k =>
      cases htx : S.effect t h.now with
      | none => simpa only [next, htx] using .inr (.refuse htx)
      | some s => simpa only [next, htx] using .inr (.accept htx)
  | halt => exact .inl rfl

/-- The program and the history after up to `n` steps, with every question answered by `o`. -/
def steps (o : ∀ q, S.Answer q) : Nat → Program S α → History S → Program S α × History S
  | 0, p, h => (p, h)
  | n + 1, p, h => steps o n (p.next o h).1 (p.next o h).2

/-- A safe program whose answers are admitted is still safe after some steps. -/
theorem Safe.steps {Γ : Regime S} {Q : α → History S → Prop} {o : ∀ q, S.Answer q}
    (hq : ∀ past q, Γ.admits past (.answered q (o q))) (ht : ∀ past t s s', Γ.admits past (.committed t s s'))
    (n : Nat) {p : Program S α} {h : History S} (hI : Γ.inv h) (hp : Safe Γ p Q h) :
    Safe Γ (p.steps o n h).1 Q (p.steps o n h).2 := by
  induction n generalizing p h with
  | zero => exact hp
  | succ n ih =>
      cases p with
      | pure a => exact ih hI hp
      | ask q k =>
          obtain ⟨hI', -, hk⟩ := hp h (Γ.rely_refl h) hI (o q) (hq _ _)
          exact ih hI' hk
      | read k => exact ih hI (hp h (Γ.rely_refl h) hI)
      | commit t k =>
          obtain ⟨hacc, href⟩ := hp h (Γ.rely_refl h) hI
          simp only [Program.steps, Program.next]
          cases htx : S.effect t h.now with
          | none => exact ih hI (href htx)
          | some s =>
              obtain ⟨hI', -, hk⟩ := hacc s htx (ht _ _ _ _)
              exact ih hI' hk
      | halt => exact ih hI hp

end Program

open Program

/-! ### Any number of programs, interleaved -/

namespace Pool

/-- `Run starts s₀ h ps`: from the store `s₀`, clients started from `starts` and
interleaved in any order have reached the history `h`, with the programs `ps` still
running. A client that never steps again has crashed. -/
inductive Run (starts : Program S α → Prop) (s₀ : σ) :
    History S → List (Program S α) → Prop
  | init : Run starts s₀ ⟨s₀, []⟩ []
  | start {h ps p} : Run starts s₀ h ps → starts p → Run starts s₀ h (p :: ps)
  | step {h h' ps qs p p'} : Run starts s₀ h (ps ++ p :: qs) → Step p h p' h' →
      Run starts s₀ h' (ps ++ p' :: qs)

/-- A run in which a program steps only where it `may`. -/
inductive RunWhere (starts : Program S α → Prop) (may : Program S α → History S → Prop) (s₀ : σ) :
    History S → List (Program S α) → Prop
  | init : RunWhere starts may s₀ ⟨s₀, []⟩ []
  | start {h ps p} : RunWhere starts may s₀ h ps → starts p → RunWhere starts may s₀ h (p :: ps)
  | step {h h' ps qs p p'} : RunWhere starts may s₀ h (ps ++ p :: qs) → may p h → Step p h p' h' →
      RunWhere starts may s₀ h' (ps ++ p' :: qs)

variable {starts : Program S α → Prop} {Γ : Regime S} {s₀ : σ}

theorem Run.leads {h : History S} {ps : List (Program S α)} (run : Run starts s₀ h ps) :
    Leads s₀ h.past h.now := by
  induction run with
  | init => exact .nil
  | start _ _ ih => exact ih
  | step _ st ih => exact st.leads ih

theorem admitted_of_step {P : List (Event S) → Event S → Prop} {p p' : Program S α}
    {h h' : History S} (st : Step p h p' h') (ha : Admitted P h'.past) : Admitted P h.past := by
  rcases st.past with rfl | ⟨e, he⟩
  · exact ha
  · rw [he] at ha
    exact ha.2

/-- **Soundness over interleavings.** If every client is safe wherever the invariant
holds, and every guarantee is within the rely, then in every interleaving whose events
are admitted the invariant holds, and every running client is still safe. -/
theorem Run.sound (hGR : ∀ h h', Γ.guar h h' → Γ.rely h h')
    (hstarts : ∀ p, starts p → ∀ h, Γ.inv h → Safe Γ p (fun _ _ => True) h)
    (h₀ : Γ.inv ⟨s₀, []⟩) {h : History S} {ps : List (Program S α)}
    (run : Run starts s₀ h ps) (ha : Admitted Γ.admits h.past) :
    Γ.inv h ∧ ∀ p ∈ ps, Safe Γ p (fun _ _ => True) h := by
  induction run with
  | init => exact ⟨h₀, by simp⟩
  | start run hp ih =>
      obtain ⟨hI, hps⟩ := ih ha
      refine ⟨hI, ?_⟩
      intro q hq
      rcases List.mem_cons.mp hq with rfl | hq
      · exact hstarts _ hp _ hI
      · exact hps q hq
  | @step h h' ps qs p p' run st ih =>
      obtain ⟨hI, hps⟩ := ih (admitted_of_step st ha)
      obtain ⟨hI', hg, hp'⟩ := (hps p (by simp)).step hI ha st
      -- the other programs only see the event as interference
      have hR : Γ.rely h h' := by
        rcases hg with rfl | hg
        · exact Γ.rely_refl _
        · exact hGR _ _ hg
      have others : ∀ q ∈ ps ++ p :: qs, Safe Γ q (fun _ _ => True) h' :=
        fun q hq => (hps q hq).stable (fun _ _ _ _ h => h) hR
      refine ⟨hI', ?_⟩
      intro q hq
      rcases List.mem_append.mp hq with hq | hq
      · exact others q (by simp [hq])
      · rcases List.mem_cons.mp hq with rfl | hq
        · exact hp'
        · exact others q (by simp [hq])

/-! #### Schedules

A run can be computed from a schedule: who starts, who moves, and what the environment
answers. -/

/-- One turn of a schedule: a client starts, or the `i`-th running program takes a
step in which its question is answered by `o`. -/
inductive Turn {σ : Type} (S : Signature σ) (α : Type)
  | start (p : Program S α)
  | step (i : Nat) (o : ∀ q, S.Answer q)

/-- Play one turn on the history and the running programs. -/
def Turn.play : Turn S α → History S × List (Program S α) →
    History S × List (Program S α)
  | .start p, (h, ps) => (h, p :: ps)
  | .step i o, (h, ps) =>
      match ps[i]? with
      | none => (h, ps)
      | some p => ((p.next o h).2, ps.set i (p.next o h).1)

/-- Play a schedule from the store `s₀`. -/
def exec (turns : List (Turn S α)) (s₀ : σ) : History S × List (Program S α) :=
  turns.foldl (fun c t => t.play c) (⟨s₀, []⟩, [])

/-- The program a turn starts, if it starts one. -/
def Turn.program : Turn S α → Option (Program S α)
  | .start p => some p
  | .step _ _ => none

theorem Run.play {h : History S} {ps : List (Program S α)} (run : Run starts s₀ h ps)
    (t : Turn S α) (ht : ∀ p ∈ t.program, starts p) :
    Run starts s₀ (t.play (h, ps)).1 (t.play (h, ps)).2 := by
  cases t with
  | start p => exact run.start (ht p rfl)
  | step i o =>
      simp only [Turn.play]
      cases hi : ps[i]? with
      | none => exact run
      | some p =>
          obtain ⟨hlt, rfl⟩ := List.getElem?_eq_some_iff.mp hi
          have hsplit : ps = ps.take i ++ ps[i] :: ps.drop (i + 1) := by simp
          simp only [List.set_eq_take_append_cons_drop, hlt, if_true]
          rcases next_step o ps[i] h with hn | st
          · rw [hn, ← hsplit]
            exact run
          · rw [hsplit] at run
            exact run.step st

/-- A computed schedule is a run. -/
theorem exec_run (turns : List (Turn S α))
    (hstarts : ∀ t ∈ turns, ∀ p ∈ t.program, starts p) :
    Run starts s₀ (exec turns s₀).1 (exec turns s₀).2 := by
  have play : ∀ (turns : List (Turn S α)) (c : History S × List (Program S α)),
      (∀ t ∈ turns, ∀ p ∈ t.program, starts p) → Run starts s₀ c.1 c.2 →
      Run starts s₀ (turns.foldl (fun c t => t.play c) c).1
        (turns.foldl (fun c t => t.play c) c).2 := by
    intro turns
    induction turns with
    | nil => exact fun _ _ run => run
    | cons t turns ih =>
        intro c h run
        exact ih _ (fun t' ht' => h t' (List.mem_cons_of_mem _ ht'))
          (run.play t (h t List.mem_cons_self))
  exact play turns _ hstarts .init

end Pool

/-! ### One program at a time -/

namespace Session

/-- `Run starts env s₀ h p`: from the store `s₀`, attempts started from `starts` one
after the other, each abandoned where the next one starts, have reached the history
`h`, with `p` what the current attempt still has to do. The environment may commit
between any two steps. -/
inductive Run (starts : History S → Program S α → Prop) (env : S.Transaction → Prop) (s₀ : σ) :
    History S → Program S α → Prop
  | init : Run starts env s₀ ⟨s₀, []⟩ .halt
  | start {h p p'} : Run starts env s₀ h p → starts h p' → Run starts env s₀ h p'
  | step {h h' p p'} : Run starts env s₀ h p → Step p h p' h' → Run starts env s₀ h' p'
  | env {h p t s} : Run starts env s₀ h p → env t → S.effect t h.now = some s →
      Run starts env s₀ (h.commit t s) p

variable {starts : History S → Program S α → Prop} {env : S.Transaction → Prop}
  {Γ : Regime S} {s₀ : σ}

theorem Run.leads {h : History S} {p : Program S α} (run : Run starts env s₀ h p) :
    Leads s₀ h.past h.now := by
  induction run with
  | init => exact .nil
  | start _ _ ih => exact ih
  | step _ st ih => exact st.leads ih
  | env _ _ htx ih => exact .committed ih htx

/-- **Soundness over crashes and restarts.** If every attempt is safe wherever it may
start, and the environment's admitted commits keep the invariant, the rely and what an
attempt has returned with, then in every run whose events are admitted the invariant
holds, and the current attempt is still safe. -/
theorem Run.sound {Q : α → History S → Prop} (hQ : ∀ a h h', Γ.rely h h' → Q a h → Q a h')
    (hstarts : ∀ h p, starts h p → Γ.inv h → Safe Γ p Q h)
    (henv : ∀ h t s, Γ.inv h → env t → S.effect t h.now = some s →
      Γ.admits h.past (.committed t h.now s) → Γ.inv (h.commit t s) ∧ Γ.rely h (h.commit t s))
    (h₀ : Γ.inv ⟨s₀, []⟩) {h : History S} {p : Program S α}
    (run : Run starts env s₀ h p) (ha : Admitted Γ.admits h.past) :
    Γ.inv h ∧ Safe Γ p Q h := by
  induction run with
  | init => exact ⟨h₀, trivial⟩
  | start _ hp ih =>
      obtain ⟨hI, -⟩ := ih ha
      exact ⟨hI, hstarts _ _ hp hI⟩
  | step _ st ih =>
      obtain ⟨hI, hp⟩ := ih (Pool.admitted_of_step st ha)
      obtain ⟨hI', -, hp'⟩ := hp.step hI ha st
      exact ⟨hI', hp'⟩
  | env _ he htx ih =>
      obtain ⟨hI, hp⟩ := ih ha.2
      obtain ⟨hI', hr⟩ := henv _ _ _ hI he htx ha.1
      exact ⟨hI', hp.stable hQ hr⟩

/-- One turn of a session's schedule: an attempt starts, the current one takes a step in
which its question is answered by `o`, or the environment attempts a transaction. -/
inductive Turn {σ : Type} (S : Signature σ) (α : Type)
  | start (p : Program S α)
  | step (o : ∀ q, S.Answer q)
  | env (t : S.Transaction)

/-- Play one turn on the history and the current attempt. -/
def Turn.play : Turn S α → History S × Program S α → History S × Program S α
  | .start p, (h, _) => (h, p)
  | .step o, (h, p) => ((p.next o h).2, (p.next o h).1)
  | .env t, (h, p) =>
      match S.effect t h.now with
      | some s => (h.commit t s, p)
      | none => (h, p)

/-- What a turn needs to be part of a run. -/
def Turn.Allowed (starts : History S → Program S α → Prop) (env : S.Transaction → Prop)
    (h : History S) : Turn S α → Prop
  | .start p => starts h p
  | .step _ => True
  | .env t => env t

theorem Run.play {h : History S} {p : Program S α} (run : Run starts env s₀ h p)
    (t : Turn S α) (ht : t.Allowed starts env h) :
    Run starts env s₀ (t.play (h, p)).1 (t.play (h, p)).2 := by
  cases t with
  | start p' => exact run.start ht
  | step o =>
      simp only [Turn.play]
      rcases next_step o p h with hn | st
      · rw [hn]
        exact run
      · exact run.step st
  | env t =>
      simp only [Turn.play]
      cases htx : S.effect t h.now with
      | none => exact run
      | some s => exact run.env ht htx

/-- Play turns one after the other. -/
def exec (turns : List (Turn S α)) (c : History S × Program S α) : History S × Program S α :=
  turns.foldl (fun c t => t.play c) c

/-- Turns that are allowed at every history extend a run. -/
theorem Run.exec {turns : List (Turn S α)} (ht : ∀ t ∈ turns, ∀ h, t.Allowed starts env h) :
    ∀ {h : History S} {p : Program S α}, Run starts env s₀ h p →
      Run starts env s₀ (exec turns (h, p)).1 (exec turns (h, p)).2 := by
  induction turns with
  | nil => exact fun run => run
  | cons t turns ih =>
      intro h p run
      exact ih (fun t' ht' => ht t' (List.mem_cons_of_mem _ ht')) (run.play t (ht t List.mem_cons_self h))

end Session

end Store
