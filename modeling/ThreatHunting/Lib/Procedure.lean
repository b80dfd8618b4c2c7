import ThreatHunting.Lib.Program

/-!
# ThreatHunting.Lib.Procedure

Programs as a service writes them: with a private memory `μ`, which nobody else sees
and which is gone after a crash, and with exceptions `ε`, which leave the memory as it
was when they were raised.

`Proc.Safe` is `Program.Safe` with one postcondition for a normal return and one for
an exception, both of which see the memory. The rules below are the ones a proof walks
a procedure with; `Proc.Keeps` is the special case of one assertion that holds before
and after, for which the rules follow the shape of the procedure.
-/

namespace Store

/-- A procedure over the store `σ` with memory `μ` and exceptions `ε`. -/
def Proc {σ : Type} (S : Signature σ) (μ ε α : Type) : Type := μ → Program S (Except ε α × μ)

/-! ### What one event does under a regime -/

namespace Regime

variable {σ : Type} {S : Signature σ}

/-- Wherever `P` holds and `q` is answered, the regime is kept and `Q` holds afterwards. -/
def Answers (Γ : Regime S) (q : S.Question) (P : History S → Prop) (Q : S.Answer q → History S → Prop) :
    Prop :=
  ∀ h a, Γ.inv h → Γ.admits h.past (.answered q a) → P h →
    Γ.inv (h.answer q a) ∧ Γ.guar h (h.answer q a) ∧ Q a (h.answer q a)

/-- Wherever `P` holds and `t` is accepted, the regime is kept and `Q` holds afterwards. -/
def Commits (Γ : Regime S) (t : S.Transaction) (P Q : History S → Prop) : Prop :=
  ∀ h s, Γ.inv h → S.effect t h.now = some s → Γ.admits h.past (.committed t h.now s) → P h →
    Γ.inv (h.commit t s) ∧ Γ.guar h (h.commit t s) ∧ Q (h.commit t s)

end Regime

namespace Proc

variable {σ : Type} {S : Signature σ} {μ ε α β : Type}

/-- Return `a`. -/
def pure (a : α) : Proc S μ ε α := fun m => .pure (.ok a, m)

/-- Run `f` on what `p` returns; an exception of `p` ends the whole. -/
def bind (p : Proc S μ ε α) (f : α → Proc S μ ε β) : Proc S μ ε β := fun m =>
  (p m).bind fun
    | (.ok a, m') => f a m'
    | (.error e, m') => .pure (.error e, m')

instance : Monad (Proc S μ ε) where
  pure := pure
  bind := bind

/-- Raise `e`. -/
def throw (e : ε) : Proc S μ ε α := fun m => .pure (.error e, m)

/-- Run `p`, and `handler` on the exception it raises. -/
def handle (p : Proc S μ ε α) (handler : ε → Proc S μ ε α) : Proc S μ ε α := fun m =>
  (p m).bind fun
    | (.ok a, m') => .pure (.ok a, m')
    | (.error e, m') => handler e m'

/-- The memory. -/
def get : Proc S μ ε μ := fun m => .pure (.ok m, m)

/-- Change the memory. -/
def modify (f : μ → μ) : Proc S μ ε Unit := fun m => .pure (.ok (), f m)

/-- Ask the environment. -/
def ask (q : S.Question) : Proc S μ ε (S.Answer q) := fun m => .ask q fun a => .pure (.ok a, m)

/-- Read the store. -/
def read : Proc S μ ε σ := fun m => .read fun s => .pure (.ok s, m)

/-- Attempt a transaction; was it accepted, and against which store? -/
def commit (t : S.Transaction) : Proc S μ ε (σ × Bool) := fun m =>
  .commit t fun s ok => .pure (.ok (s, ok), m)

/-- Never be heard of again. -/
def halt : Proc S μ ε α := fun _ => .halt

/-- The value of a fallible pure computation, or its exception. -/
def ofExcept : Except ε α → Proc S μ ε α
  | .ok a => pure a
  | .error e => throw e

/-- Run `f` on every element, in order, and collect what it returns. -/
def collect (f : α → Proc S μ ε β) : List α → Proc S μ ε (List β)
  | [] => pure []
  | a :: as => bind (f a) fun b => bind (collect f as) fun bs => pure (b :: bs)

/-! ### Postconditions -/

/-- Started with memory `m` at `h`, the procedure is safe, returns only where `Q` holds and
raises only where `E` holds. -/
def Safe (Γ : Regime S) (p : Proc S μ ε α) (m : μ) (h : History S)
    (Q : α → μ → History S → Prop) (E : ε → μ → History S → Prop) : Prop :=
  (p m).Safe Γ (fun r h' =>
    match r.1 with
    | .ok a => Q a r.2 h'
    | .error e => E e r.2 h') h

variable {Γ : Regime S}

section Rules

variable {m : μ} {h : History S} {Q T : α → μ → History S → Prop}
  {E F : ε → μ → History S → Prop}

theorem Safe.mono {p : Proc S μ ε α} (hp : p.Safe Γ m h Q E)
    (hQ : ∀ a m h, Q a m h → T a m h) (hE : ∀ e m h, E e m h → F e m h) :
    p.Safe Γ m h T F := by
  refine Program.Safe.mono ?_ hp
  rintro ⟨r, m'⟩ h' hr
  cases r with
  | ok a => exact hQ _ _ _ hr
  | error e => exact hE _ _ _ hr

theorem safe_pure {a : α} (hQ : Q a m h) : (Pure.pure a : Proc S μ ε α).Safe Γ m h Q E := hQ

theorem safe_throw {e : ε} (hE : E e m h) : (throw e : Proc S μ ε α).Safe Γ m h Q E := hE

theorem safe_halt : (halt : Proc S μ ε α).Safe Γ m h Q E := trivial

theorem safe_ofExcept {x : Except ε α} (hQ : ∀ a, x = .ok a → Q a m h)
    (hE : ∀ e, x = .error e → E e m h) : (ofExcept x : Proc S μ ε α).Safe Γ m h Q E := by
  cases x with
  | ok a => exact hQ a rfl
  | error e => exact hE e rfl

theorem Safe.bind {p : Proc S μ ε α} {f : α → Proc S μ ε β}
    {Q : β → μ → History S → Prop}
    (hp : p.Safe Γ m h (fun a m' h' => (f a).Safe Γ m' h' Q E) E) :
    (p >>= f).Safe Γ m h Q E := by
  refine Program.Safe.bind (Program.Safe.mono ?_ hp)
  rintro ⟨r, m'⟩ h' hr
  cases r with
  | ok a => exact hr
  | error e => exact hr

/-- Sequencing through an intermediate assertion. -/
theorem Safe.seq {p : Proc S μ ε α} {f : α → Proc S μ ε β}
    {Q : β → μ → History S → Prop} (hp : p.Safe Γ m h T E)
    (hf : ∀ a m' h', T a m' h' → (f a).Safe Γ m' h' Q E) : (p >>= f).Safe Γ m h Q E :=
  .bind (hp.mono hf fun _ _ _ he => he)

theorem Safe.handle {p : Proc S μ ε α} {handler : ε → Proc S μ ε α}
    (hp : p.Safe Γ m h Q F) (he : ∀ e m' h', F e m' h' → (handler e).Safe Γ m' h' Q E) :
    (p.handle handler).Safe Γ m h Q E := by
  refine Program.Safe.bind (Program.Safe.mono ?_ hp)
  rintro ⟨r, m'⟩ h' hr
  cases r with
  | ok a => exact hr
  | error e => exact he _ _ _ hr

theorem safe_get {Q : μ → μ → History S → Prop} (hQ : Q m m h) :
    (get : Proc S μ ε μ).Safe Γ m h Q E := hQ

theorem safe_modify {f : μ → μ} {Q : Unit → μ → History S → Prop} (hQ : Q () (f m) h) :
    (modify f : Proc S μ ε Unit).Safe Γ m h Q E := hQ

theorem safe_ask {q : S.Question} {Q : S.Answer q → μ → History S → Prop}
    (hQ : ∀ h', Γ.rely h h' → Γ.inv h' → ∀ a, Γ.admits h'.past (.answered q a) →
      Γ.inv (h'.answer q a) ∧ Γ.guar h' (h'.answer q a) ∧ Q a m (h'.answer q a)) :
    (ask q : Proc S μ ε _).Safe Γ m h Q E := hQ

/-- Under a regime that demands nothing, only the answer counts. -/
theorem safe_ask_free {admits : List (Event S) → Event S → Prop} {q : S.Question}
    {Q : S.Answer q → μ → History S → Prop}
    (hQ : ∀ (h' : History S) a, admits h'.past (.answered q a) → Q a m (h'.answer q a)) :
    (ask q : Proc S μ ε _).Safe (.free admits) m h Q E :=
  safe_ask fun h' _ _ a ha => ⟨trivial, trivial, hQ h' a ha⟩

theorem safe_read {Q : σ → μ → History S → Prop}
    (hQ : ∀ h', Γ.rely h h' → Γ.inv h' → Q h'.now m h') :
    (read : Proc S μ ε σ).Safe Γ m h Q E := hQ

theorem safe_commit {t : S.Transaction} {Q : σ × Bool → μ → History S → Prop}
    (hacc : ∀ h', Γ.rely h h' → Γ.inv h' → ∀ s, S.effect t h'.now = some s →
      Γ.admits h'.past (.committed t h'.now s) →
      Γ.inv (h'.commit t s) ∧ Γ.guar h' (h'.commit t s) ∧ Q (h'.now, true) m (h'.commit t s))
    (href : ∀ h', Γ.rely h h' → Γ.inv h' → S.effect t h'.now = none → Q (h'.now, false) m h') :
    (commit t : Proc S μ ε _).Safe Γ m h Q E :=
  fun h' hr hI => ⟨hacc h' hr hI, href h' hr hI⟩

theorem safe_ite {c : Prop} [Decidable c] {p q : Proc S μ ε α}
    (hp : c → p.Safe Γ m h Q E) (hq : ¬c → q.Safe Γ m h Q E) :
    (if c then p else q).Safe Γ m h Q E := by
  by_cases hc : c
  · simpa only [hc, if_true] using hp hc
  · simpa only [hc, if_false] using hq hc

end Rules

/-- The rule for `collect`: an assertion about what has been collected so far. -/
theorem safe_collect {f : α → Proc S μ ε β} {E : ε → μ → History S → Prop}
    (P : List β → μ → History S → Prop) :
    ∀ (as : List α) (done : List β) (m : μ) (h : History S), P done m h →
      (∀ a ∈ as, ∀ done m h, P done m h → (f a).Safe Γ m h (fun b => P (done ++ [b])) E) →
      (collect f as).Safe Γ m h (fun bs => P (done ++ bs)) E
  | [], done, m, h, hP, _ => safe_pure (by simpa using hP)
  | a :: as, done, m, h, hP, hf => by
      refine Safe.seq (hf a List.mem_cons_self done m h hP) ?_
      intro b m₁ h₁ h₁P
      refine Safe.seq (safe_collect P as (done ++ [b]) m₁ h₁ h₁P
        fun a' ha' => hf a' (List.mem_cons_of_mem _ ha')) ?_
      intro bs m₂ h₂ h₂P
      exact safe_pure (by simpa using h₂P)

/-- Under a regime that demands nothing, every procedure is safe. -/
theorem safe_free {admits : List (Event S) → Event S → Prop} (p : Proc S μ ε α) (m : μ) (h : History S) :
    p.Safe (.free admits) m h (fun _ _ _ => True) fun _ _ _ => True :=
  Program.Safe.mono (fun r _ _ => by cases r.1 <;> trivial) (Program.safe_free (p m) h)

/-- Two postconditions of one procedure hold together. -/
theorem Safe.and {p : Proc S μ ε α} {m : μ} {h : History S} {Q T : α → μ → History S → Prop}
    {E F : ε → μ → History S → Prop} (hp : p.Safe Γ m h Q E) (hp' : p.Safe Γ m h T F) :
    p.Safe Γ m h (fun a m' h' => Q a m' h' ∧ T a m' h') fun e m' h' => E e m' h' ∧ F e m' h' := by
  refine Program.Safe.mono ?_ (Program.Safe.and hp hp')
  rintro ⟨r, m'⟩ h' ⟨hr, hr'⟩
  cases r with
  | ok a => exact ⟨hr, hr'⟩
  | error e => exact ⟨hr, hr'⟩

/-! ### Assertions a procedure keeps -/

/-- The environment keeps the assertion. -/
def Stable (Γ : Regime S) (I : μ → History S → Prop) : Prop := ∀ m h h', Γ.rely h h' → I m h → I m h'

/-- Started where `I` holds, the procedure ends where it holds, however it ends. -/
def Keeps (Γ : Regime S) (I : μ → History S → Prop) (p : Proc S μ ε α) : Prop :=
  ∀ m h, I m h → p.Safe Γ m h (fun _ => I) fun _ => I

namespace Keeps

variable {I : μ → History S → Prop}

theorem pure (a : α) : Keeps Γ I (Pure.pure a : Proc S μ ε α) := fun _ _ hI => safe_pure hI

theorem throw (e : ε) : Keeps Γ I (Proc.throw e : Proc S μ ε α) := fun _ _ hI => safe_throw hI

theorem halt : Keeps Γ I (Proc.halt : Proc S μ ε α) := fun _ _ _ => safe_halt

theorem get : Keeps Γ I (Proc.get : Proc S μ ε μ) := fun _ _ hI => safe_get hI

theorem modify {f : μ → μ} (hf : ∀ m h, I m h → I (f m) h) : Keeps Γ I (Proc.modify f : Proc S μ ε Unit) :=
  fun m h hI => safe_modify (hf m h hI)

theorem ofExcept (x : Except ε α) : Keeps Γ I (Proc.ofExcept x : Proc S μ ε α) :=
  fun _ _ hI => safe_ofExcept (fun _ _ => hI) fun _ _ => hI

theorem ask {q : S.Question} (hs : Stable Γ I) (hq : ∀ m, Γ.Answers q (I m) fun _ => I m) :
    Keeps Γ I (Proc.ask q : Proc S μ ε _) :=
  fun m h hI => safe_ask fun h' hr hinv a ha => hq m h' a hinv ha (hs m h h' hr hI)

theorem read (hs : Stable Γ I) : Keeps Γ I (Proc.read : Proc S μ ε σ) :=
  fun m h hI => safe_read fun h' hr _ => hs m h h' hr hI

theorem commit {t : S.Transaction} (hs : Stable Γ I) (ht : ∀ m, Γ.Commits t (I m) (I m)) :
    Keeps Γ I (Proc.commit t : Proc S μ ε _) :=
  fun m h hI => safe_commit (fun h' hr hinv s htx ha => ht m h' s hinv htx ha (hs m h h' hr hI))
    fun h' hr _ _ => hs m h h' hr hI

theorem bind {p : Proc S μ ε α} {f : α → Proc S μ ε β} (hp : Keeps Γ I p) (hf : ∀ a, Keeps Γ I (f a)) :
    Keeps Γ I (p >>= f) :=
  fun m h hI => Safe.seq (hp m h hI) fun a m' h' hI' => hf a m' h' hI'

theorem handle {p : Proc S μ ε α} {handler : ε → Proc S μ ε α} (hp : Keeps Γ I p)
    (he : ∀ e, Keeps Γ I (handler e)) : Keeps Γ I (p.handle handler) :=
  fun m h hI => Safe.handle (hp m h hI) fun e m' h' hI' => he e m' h' hI'

theorem ite {c : Prop} [Decidable c] {p q : Proc S μ ε α} (hp : c → Keeps Γ I p) (hq : ¬c → Keeps Γ I q) :
    Keeps Γ I (if c then p else q) :=
  fun m h hI => safe_ite (fun hc => hp hc m h hI) fun hc => hq hc m h hI

theorem collect {f : α → Proc S μ ε β} {as : List α} (hf : ∀ a ∈ as, Keeps Γ I (f a)) :
    Keeps Γ I (Proc.collect f as) :=
  fun m h hI => safe_collect (fun _ => I) as [] m h hI fun a ha _ m h hI => hf a ha m h hI

/-! An assertion about the memory is kept by whatever leaves the memory alone, under a regime
that demands nothing. -/

section Free

variable {admits : List (Event S) → Event S → Prop} {P : μ → Prop}

theorem ask_free (q : S.Question) : Keeps (.free admits) (fun m _ => P m) (Proc.ask q : Proc S μ ε _) :=
  .ask (fun _ _ _ _ hP => hP) fun _ _ _ _ _ hP => ⟨trivial, trivial, hP⟩

theorem read_free : Keeps (.free admits) (fun m _ => P m) (Proc.read : Proc S μ ε σ) :=
  .read fun _ _ _ _ hP => hP

theorem commit_free (t : S.Transaction) : Keeps (.free admits) (fun m _ => P m) (Proc.commit t : Proc S μ ε _) :=
  .commit (fun _ _ _ _ hP => hP) fun _ _ _ _ _ _ hP => ⟨trivial, trivial, hP⟩

end Free

end Keeps

end Proc

end Store
