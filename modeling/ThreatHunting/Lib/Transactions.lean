import Mathlib

/-!
# Transactions over rows with unique keys

Sessions run one transaction each over shared rows, as PostgreSQL runs them at its default
isolation. A statement reads what is committed and what its own transaction has inserted. An
insert waits while another open transaction holds one of its keys, and is refused if a committed
row does. Any statement that fails aborts its transaction: what it has inserted is gone, every
further statement fails, and COMMIT rolls back without an error.

`Body.Meets` says, by recursion on the body of a transaction, that it establishes a
postcondition whatever other sessions commit in between, provided its inserts are not refused.
`Run.intact` lifts this to all sessions of a run.
-/

namespace Transactions

/-- Why a statement fails. -/
inductive StatementError
  | unique_violation
  | data_error
  /-- The wait for another transaction was ended, as in a deadlock. -/
  | wait_ended
  | in_failed_transaction
  deriving DecidableEq, Repr

/-- What is done in one transaction: statements, and in the end a value or an exception. -/
inductive Body (ρ α : Type)
  | pure (a : α)
  | raise (e : StatementError)
  | select (where_ : ρ → Bool) (next : Except StatementError (Option ρ) → Body ρ α)
  | insert (row : ρ) (next : Except StatementError Unit → Body ρ α)

namespace Body

variable {ρ α β : Type}

/-- One body after the other. -/
def bind (x : Body ρ α) (f : α → Body ρ β) : Body ρ β :=
  match x with
  | .pure a => f a
  | .raise e => .raise e
  | .select where_ next => .select where_ fun answer => (next answer).bind f
  | .insert row next => .insert row fun answer => (next answer).bind f

instance : Monad (Body ρ) where
  pure := .pure
  bind := bind

/-- An answer, or the exception of a statement that failed. -/
def answer : Except StatementError α → Body ρ α
  | .ok a => .pure a
  | .error e => .raise e

/-- `connection.execute(select(…).where(…)).mappings().first()`. -/
def first (where_ : ρ → Bool) : Body ρ (Option ρ) := .select where_ answer

/-- `connection.execute(insert(…).values(row))`. -/
def add (row : ρ) : Body ρ Unit := .insert row answer

/-- `try: x except IntegrityError: handler`. -/
def exceptIntegrity (x handler : Body ρ α) : Body ρ α :=
  match x with
  | .pure a => .pure a
  | .raise .unique_violation => handler
  | .raise e => .raise e
  | .select where_ next => .select where_ fun answer => (next answer).exceptIntegrity handler
  | .insert row next => .insert row fun answer => (next answer).exceptIntegrity handler

/-- Look a row up, and insert one if there is none. After a refused insert look up `again`. -/
def lookupOrInsert (natural again : ρ → Bool) (row : ρ) (missing : Body ρ (Option ρ)) : Body ρ (Option ρ) := do
  match ← first natural with
  | some existing => return some existing
  | none =>
      exceptIntegrity (do add row; return none) (do
        match ← first again with
        | some existing => return some existing
        | none => missing)

theorem bind_assoc (x : Body ρ α) (f : α → Body ρ β) {γ : Type} (g : β → Body ρ γ) :
    (x >>= f) >>= g = x >>= fun a => f a >>= g := by
  induction x with
  | pure a => rfl
  | raise e => rfl
  | select where_ next ih => exact congrArg (Body.select where_) (funext ih)
  | insert row next ih => exact congrArg (Body.insert row) (funext ih)

end Body

section Model

variable {ι ρ κ α : Type}

/-- A table of what the rows are: the unique keys each holds, and whether it fits its columns. -/
structure Schema (ρ κ : Type) where
  keys : ρ → List κ
  fits : ρ → Bool

/-- Two rows hold a key in common. -/
def Schema.Conflict (S : Schema ρ κ) (r r' : ρ) : Prop := ∃ k ∈ S.keys r, k ∈ S.keys r'

instance [DecidableEq κ] (S : Schema ρ κ) (r r' : ρ) : Decidable (S.Conflict r r') :=
  inferInstanceAs (Decidable (∃ k ∈ S.keys r, k ∈ S.keys r'))

/-- An open transaction: what is left to do, and the rows inserted so far. -/
structure Transaction (ρ α : Type) where
  body : Body ρ α
  inserted : List ρ
  aborted : Bool

/-- What has become of a call. -/
inductive Status (ρ α : Type)
  | waiting
  | running (t : Transaction ρ α)
  | finished (result : Except StatementError α)

/-- The committed rows, and the calls. -/
structure System (ι ρ α : Type) where
  committed : List ρ
  status : ι → Status ρ α

/-- The rows an open transaction has inserted. -/
def Status.pending : Status ρ α → List ρ
  | .running t => t.inserted
  | _ => []

def System.pending (s : System ι ρ α) (i : ι) : List ρ := (s.status i).pending

/-- What happens in a step, to the call it happens to. -/
inductive Event (ι : Type)
  | begun (i : ι)
  | selected (i : ι)
  | inserted (i : ι)
  | refused (i : ι)
  | rejected (i : ι)
  | given_up (i : ι)
  | failed (i : ι)
  | ended (i : ι)

variable [DecidableEq ι]

/-- The call `i` has got this far. -/
def System.put (s : System ι ρ α) (i : ι) (status : Status ρ α) : System ι ρ α :=
  { s with status := Function.update s.status i status }

/-- The call `i` has ended, and its rows are committed. -/
def System.commit (s : System ι ρ α) (i : ι) (a : α) (rows : List ρ) : System ι ρ α :=
  { s.put i (.finished (.ok a)) with committed := s.committed ++ rows }

/-- One statement of one session, or the end of its transaction. -/
inductive Step (S : Schema ρ κ) (calls : ι → Body ρ α) : System ι ρ α → Event ι → System ι ρ α → Prop
  | begun {s i} : s.status i = .waiting → Step S calls s (.begun i) (s.put i (.running ⟨calls i, [], false⟩))
  | found {s i where_ next ins r} : s.status i = .running ⟨.select where_ next, ins, false⟩ →
      r ∈ s.committed ++ ins → where_ r = true →
      Step S calls s (.selected i) (s.put i (.running ⟨next (.ok (some r)), ins, false⟩))
  | missing {s i where_ next ins} : s.status i = .running ⟨.select where_ next, ins, false⟩ →
      (∀ r ∈ s.committed ++ ins, where_ r = false) →
      Step S calls s (.selected i) (s.put i (.running ⟨next (.ok none), ins, false⟩))
  | inserted {s i row next ins} : s.status i = .running ⟨.insert row next, ins, false⟩ →
      S.fits row = true → (∀ r ∈ s.committed ++ ins, ¬S.Conflict r row) →
      (∀ j, j ≠ i → ∀ r ∈ s.pending j, ¬S.Conflict r row) →
      Step S calls s (.inserted i) (s.put i (.running ⟨next (.ok ()), ins ++ [row], false⟩))
  | refused {s i row next ins r} : s.status i = .running ⟨.insert row next, ins, false⟩ →
      r ∈ s.committed ++ ins → S.Conflict r row →
      Step S calls s (.refused i) (s.put i (.running ⟨next (.error .unique_violation), [], true⟩))
  | rejected {s i row next ins} : s.status i = .running ⟨.insert row next, ins, false⟩ →
      S.fits row = false →
      Step S calls s (.rejected i) (s.put i (.running ⟨next (.error .data_error), [], true⟩))
  | given_up {s i row next ins j r} : s.status i = .running ⟨.insert row next, ins, false⟩ → j ≠ i →
      r ∈ s.pending j → S.Conflict r row →
      Step S calls s (.given_up i) (s.put i (.running ⟨next (.error .wait_ended), [], true⟩))
  | select_failed {s i where_ next ins} : s.status i = .running ⟨.select where_ next, ins, true⟩ →
      Step S calls s (.failed i) (s.put i (.running ⟨next (.error .in_failed_transaction), ins, true⟩))
  | insert_failed {s i row next ins} : s.status i = .running ⟨.insert row next, ins, true⟩ →
      Step S calls s (.failed i) (s.put i (.running ⟨next (.error .in_failed_transaction), ins, true⟩))
  | committed {s i a ins} : s.status i = .running ⟨.pure a, ins, false⟩ →
      Step S calls s (.ended i) (s.commit i a ins)
  | rolled_back {s i a ins} : s.status i = .running ⟨.pure a, ins, true⟩ →
      Step S calls s (.ended i) (s.put i (.finished (.ok a)))
  | raised {s i e ins aborted} : s.status i = .running ⟨.raise e, ins, aborted⟩ →
      Step S calls s (.ended i) (s.put i (.finished (.error e)))

/-- A refusal does no harm if the call ignores it, does nothing else after it, and has
inserted nothing before it. -/
def Harmless (s : System ι ρ α) (i : ι) : Prop :=
  ∃ row next a, s.status i = .running ⟨.insert row next, [], false⟩ ∧
    next (.error .unique_violation) = .pure a

/-- No insert meets a key that is taken, nor a column it does not fit, except without harm. -/
def Clear (s : System ι ρ α) : Event ι → Prop
  | .refused i => Harmless s i
  | .rejected _ | .given_up _ => False
  | _ => True

/-- The systems reached by steps that satisfy a condition. -/
inductive Run (S : Schema ρ κ) (calls : ι → Body ρ α) (P : System ι ρ α → Event ι → Prop)
    (s₀ : System ι ρ α) : System ι ρ α → Prop
  | refl : Run S calls P s₀ s₀
  | step {s e s'} : Run S calls P s₀ s → Step S calls s e s' → P s e → Run S calls P s₀ s'

end Model

/-! ### What a transaction establishes -/

section Meets

variable {ρ κ α : Type} (S : Schema ρ κ)

/-- From the rows that are committed and its own, a body ends in a value that satisfies `post`
of the rows it leaves, whatever is committed between its statements. -/
def Body.Meets (post : α → List ρ → Prop) : Body ρ α → List ρ → List ρ → Prop
  | .pure a, ins, committed => post a (committed ++ ins)
  | .raise _, _, _ => False
  | .select where_ next, ins, committed => ∀ later, committed ⊆ later →
      (∀ r ∈ later ++ ins, where_ r = true → (next (.ok (some r))).Meets post ins later) ∧
        (next (.ok none)).Meets post ins later
  | .insert row next, ins, committed => ∀ later, committed ⊆ later →
      (next (.ok ())).Meets post (ins ++ [row]) later ∧
        ∀ a, ins = [] → next (.error .unique_violation) = .pure a →
          (∃ r ∈ later, S.Conflict r row) → post a later

/-- A postcondition that further rows cannot undo. -/
def Lasting (post : α → List ρ → Prop) : Prop :=
  ∀ a rows more, rows ⊆ more → post a rows → post a more

variable {S} {post : α → List ρ → Prop}

theorem Body.Meets.later (hpost : Lasting post) {body : Body ρ α} {ins committed later : List ρ}
    (h : body.Meets S post ins committed) (hsub : committed ⊆ later) : body.Meets S post ins later := by
  cases body with
  | pure a =>
      refine hpost a _ _ (fun r hr => ?_) h
      rw [List.mem_append] at hr ⊢
      exact hr.imp_left (hsub ·)
  | raise e => exact h
  | select where_ next => exact fun more hmore => h more (List.Subset.trans hsub hmore)
  | insert row next => exact fun more hmore => h more (List.Subset.trans hsub hmore)

/-- A row is found, or inserted; what follows starts from there. -/
theorem Body.meets_lookupOrInsert {β : Type} {goal : β → List ρ → Prop} {natural again : ρ → Bool} {row : ρ}
    {missing : Body ρ (Option ρ)} {f : Option ρ → Body ρ β} {committed : List ρ}
    (hfound : ∀ later, committed ⊆ later → ∀ r ∈ later, natural r = true → (f (some r)).Meets S goal [] later)
    (hnew : ∀ later, committed ⊆ later → (f none).Meets S goal [row] later) :
    (lookupOrInsert natural again row missing >>= f).Meets S goal [] committed := by
  intro later hlater
  constructor
  · intro r hr hnatural
    rw [List.append_nil] at hr
    exact hfound later hlater r hr hnatural
  · intro more hmore
    -- after a refusal there is another statement, so nothing is left to show
    exact ⟨hnew more (List.Subset.trans hlater hmore), nofun⟩

end Meets

/-! ### All transactions of a run -/

section Runs

variable {ι ρ κ α : Type} {S : Schema ρ κ} {calls : ι → Body ρ α}
  {post : ι → α → List ρ → Prop} {s s' : System ι ρ α} {e : Event ι} {i : ι}

theorem Schema.Conflict.symm {r r' : ρ} (h : S.Conflict r r') : S.Conflict r' r :=
  let ⟨k, hk, hk'⟩ := h
  ⟨k, hk', hk⟩

/-- No two rows hold a key in common. -/
def Apart (S : Schema ρ κ) (rows : List ρ) : Prop := rows.Pairwise fun r r' => ¬S.Conflict r r'

/-- Exactly one of the rows holds a key that one of them holds. -/
theorem Apart.countP_eq_one [DecidableEq κ] {rows : List ρ} (h : Apart S rows) {k : κ} {r : ρ} (hr : r ∈ rows)
    (hk : k ∈ S.keys r) : rows.countP (k ∈ S.keys ·) = 1 := by
  induction rows with
  | nil => cases hr
  | cons r₀ rows ih =>
      have hapart := List.pairwise_cons.mp h
      rw [List.countP_cons]
      by_cases hk₀ : k ∈ S.keys r₀
      · have hnone : rows.countP (k ∈ S.keys ·) = 0 := by
          rw [List.countP_eq_zero]
          intro r' hr' hk'
          exact hapart.1 r' hr' ⟨k, hk₀, of_decide_eq_true hk'⟩
        rw [hnone, if_pos (decide_eq_true hk₀)]
      · rcases List.mem_cons.mp hr with rfl | hr'
        · exact absurd hk hk₀
        · rw [ih hapart.2 hr', if_neg (by simpa using hk₀)]

/-- Rows that hold a key in common are one row. -/
theorem Apart.eq_of_key {rows : List ρ} (h : Apart S rows) {k : κ} {r r' : ρ} (hr : r ∈ rows) (hr' : r' ∈ rows)
    (hk : k ∈ S.keys r) (hk' : k ∈ S.keys r') : r = r' := by
  by_contra hne
  have : Std.Symm fun r r' : ρ => ¬S.Conflict r r' := ⟨fun _ _ hapart hconflict => hapart hconflict.symm⟩
  exact List.Pairwise.forall h hr hr' hne ⟨k, hk, hk'⟩

/-- How far a call may have got: it is on its way to its postcondition, or has reached it. -/
def OnTheWay (S : Schema ρ κ) (post : α → List ρ → Prop) (call : Body ρ α) (committed : List ρ) :
    Status ρ α → Prop
  | .waiting => call.Meets S post [] committed
  | .running t =>
      (t.aborted = false ∧ t.body.Meets S post t.inserted committed) ∨
        (t.aborted = true ∧ t.inserted = [] ∧ ∃ a, t.body = .pure a ∧ post a committed)
  | .finished result => ∃ a, result = .ok a ∧ post a committed

theorem OnTheWay.later {call : Body ρ α} {goal : α → List ρ → Prop} (hgoal : Lasting goal)
    {committed more : List ρ} (hsub : committed ⊆ more) {status : Status ρ α}
    (h : OnTheWay S goal call committed status) : OnTheWay S goal call more status := by
  cases status with
  | waiting => exact Body.Meets.later hgoal h hsub
  | running t =>
      rcases h with ⟨haborted, hmeets⟩ | ⟨haborted, hins, a, hbody, hdone⟩
      · exact .inl ⟨haborted, hmeets.later hgoal hsub⟩
      · exact .inr ⟨haborted, hins, a, hbody, hgoal a _ _ hsub hdone⟩
  | finished result =>
      obtain ⟨a, hresult, hdone⟩ := h
      exact ⟨a, hresult, hgoal a _ _ hsub hdone⟩

/-- What holds of all systems of a run whose statements meet no taken key. -/
structure Intact (S : Schema ρ κ) (calls : ι → Body ρ α) (post : ι → α → List ρ → Prop)
    (s : System ι ρ α) : Prop where
  /-- Committed rows hold different keys, and so do those of a transaction. -/
  apart : Apart S s.committed
  pending : ∀ i, Apart S (s.committed ++ s.pending i)
  /-- Two open transactions hold different keys. -/
  across : ∀ i j, i ≠ j → ∀ r ∈ s.pending i, ∀ r' ∈ s.pending j, ¬S.Conflict r r'
  calls : ∀ i, OnTheWay S (post i) (calls i) s.committed (s.status i)

namespace Intact

/-- What a running transaction has inserted, and that it is on its way. -/
theorem running (h : Intact S calls post s) {body : Body ρ α} {ins : List ρ}
    (hi : s.status i = .running ⟨body, ins, false⟩) :
    s.pending i = ins ∧ body.Meets S (post i) ins s.committed := by
  have hcall := h.calls i
  rw [hi] at hcall
  refine ⟨by rw [System.pending, hi]; rfl, ?_⟩
  rcases hcall with ⟨-, hmeets⟩ | ⟨haborted, -⟩
  · exact hmeets
  · cases haborted

/-- A transaction is aborted only where nothing is left to do. -/
theorem aborted (h : Intact S calls post s) {body : Body ρ α} {ins : List ρ}
    (hi : s.status i = .running ⟨body, ins, true⟩) :
    ins = [] ∧ ∃ a, body = .pure a ∧ post i a s.committed := by
  have hcall := h.calls i
  rw [hi] at hcall
  rcases hcall with ⟨haborted, -⟩ | ⟨-, hins, hbody⟩
  · cases haborted
  · exact ⟨hins, hbody⟩

end Intact

variable [DecidableEq ι]

@[simp] theorem System.put_committed (s : System ι ρ α) (i : ι) (status : Status ρ α) :
    (s.put i status).committed = s.committed := rfl

@[simp] theorem System.put_status_self (s : System ι ρ α) (i : ι) (status : Status ρ α) :
    (s.put i status).status i = status := Function.update_self _ _ _

theorem System.put_status_of_ne (s : System ι ρ α) {i j : ι} (hne : j ≠ i) (status : Status ρ α) :
    (s.put i status).status j = s.status j := Function.update_of_ne hne _ _

namespace Intact

/-- A call gets on without inserting a row. -/
theorem put (h : Intact S calls post s) {status : Status ρ α}
    (hpending : status.pending = s.pending i ∨ status.pending = [])
    (hcall : OnTheWay S (post i) (calls i) s.committed status) : Intact S calls post (s.put i status) := by
  have hsame : ∀ j, (s.put i status).pending j = s.pending j ∨ (s.put i status).pending j = [] := by
    intro j
    by_cases hj : j = i
    · subst hj
      rw [System.pending, System.put_status_self]
      exact hpending
    · rw [System.pending, System.put_status_of_ne s hj]
      exact .inl rfl
  have hmem : ∀ {j r}, r ∈ (s.put i status).pending j → r ∈ s.pending j := by
    intro j r hr
    rcases hsame j with heq | heq <;> rw [heq] at hr
    · exact hr
    · cases hr
  refine ⟨h.apart, fun j => ?_, fun j k hne r hr r' hr' => h.across j k hne r (hmem hr) r' (hmem hr'),
    fun j => ?_⟩
  · rcases hsame j with heq | heq <;> rw [heq, System.put_committed]
    · exact h.pending j
    · rw [List.append_nil]
      exact h.apart
  · by_cases hj : j = i
    · subst hj
      rw [System.put_status_self]
      exact hcall
    · rw [System.put_status_of_ne s hj]
      exact h.calls j

/-- A call inserts a row whose keys nobody holds. -/
theorem insert (h : Intact S calls post s) {row : ρ} {body : Body ρ α}
    (hcommitted : ∀ r ∈ s.committed ++ s.pending i, ¬S.Conflict r row)
    (hothers : ∀ j, j ≠ i → ∀ r ∈ s.pending j, ¬S.Conflict r row)
    (hmeets : body.Meets S (post i) (s.pending i ++ [row]) s.committed) :
    Intact S calls post (s.put i (.running ⟨body, s.pending i ++ [row], false⟩)) := by
  have hself : (s.put i (.running ⟨body, s.pending i ++ [row], false⟩)).pending i = s.pending i ++ [row] := by
    rw [System.pending, System.put_status_self]
    rfl
  have hother : ∀ {j}, j ≠ i →
      (s.put i (.running ⟨body, s.pending i ++ [row], false⟩)).pending j = s.pending j := by
    intro j hj
    rw [System.pending, System.put_status_of_ne s hj]
    rfl
  refine ⟨h.apart, fun j => ?_, fun j k hne r hr r' hr' => ?_, fun j => ?_⟩
  · by_cases hj : j = i
    · subst hj
      rw [hself, System.put_committed, Apart, ← List.append_assoc, List.pairwise_append]
      refine ⟨h.pending j, List.pairwise_singleton _ _, fun r hr r' hr' => ?_⟩
      rw [List.mem_singleton.mp hr']
      exact hcommitted r hr
    · rw [hother hj]
      exact h.pending j
  · by_cases hj : j = i
    · subst hj
      rw [hself] at hr
      rw [hother hne.symm] at hr'
      rcases List.mem_append.mp hr with hr | hr
      · exact h.across j k hne r hr r' hr'
      · rw [List.mem_singleton.mp hr]
        exact fun hconflict => hothers k hne.symm r' hr' hconflict.symm
    · rw [hother hj] at hr
      by_cases hk : k = i
      · subst hk
        rw [hself] at hr'
        rcases List.mem_append.mp hr' with hr' | hr'
        · exact h.across j k hne r hr r' hr'
        · rw [List.mem_singleton.mp hr']
          exact hothers j hj r hr
      · rw [hother hk] at hr'
        exact h.across j k hne r hr r' hr'
  · by_cases hj : j = i
    · subst hj
      rw [System.put_status_self]
      exact .inl ⟨rfl, hmeets⟩
    · rw [System.put_status_of_ne s hj]
      exact h.calls j

/-- A transaction is committed. -/
theorem commit (h : Intact S calls post s) (hpost : ∀ j, Lasting (post j)) {a : α}
    (hdone : post i a (s.committed ++ s.pending i)) :
    Intact S calls post (s.commit i a (s.pending i)) := by
  have hself : (s.commit i a (s.pending i)).pending i = [] := by
    show ((s.put i (.finished (.ok a))).status i).pending = []
    rw [System.put_status_self]
    rfl
  have hother : ∀ {j}, j ≠ i → (s.commit i a (s.pending i)).pending j = s.pending j := by
    intro j hj
    show ((s.put i (.finished (.ok a))).status j).pending = s.pending j
    rw [System.put_status_of_ne s hj]
    rfl
  refine ⟨h.pending i, fun j => ?_, fun j k hne r hr r' hr' => ?_, fun j => ?_⟩
  · by_cases hj : j = i
    · subst hj
      rw [hself, List.append_nil]
      exact h.pending j
    · have hboth := List.pairwise_append.mp (h.pending j)
      rw [hother hj, Apart, List.pairwise_append]
      refine ⟨h.pending i, hboth.2.1, fun r hr r' hr' => ?_⟩
      rcases List.mem_append.mp hr with hr | hr
      · exact hboth.2.2 r hr r' hr'
      · exact h.across i j (Ne.symm hj) r hr r' hr'
  · by_cases hj : j = i
    · subst hj
      rw [hself] at hr
      cases hr
    · by_cases hk : k = i
      · subst hk
        rw [hself] at hr'
        cases hr'
      · rw [hother hj] at hr
        rw [hother hk] at hr'
        exact h.across j k hne r hr r' hr'
  · show OnTheWay S (post j) (calls j) (s.committed ++ s.pending i) ((s.put i (.finished (.ok a))).status j)
    by_cases hj : j = i
    · subst hj
      rw [System.put_status_self]
      exact ⟨a, rfl, hdone⟩
    · rw [System.put_status_of_ne s hj]
      exact (h.calls j).later (hpost j) (List.subset_append_left _ _)

theorem step (h : Intact S calls post s) (hpost : ∀ j, Lasting (post j)) (hclear : Clear s e)
    (hstep : Step S calls s e s') : Intact S calls post s' := by
  cases hstep with
  | @begun i hi =>
      have hcall := h.calls i
      rw [hi] at hcall
      exact h.put (.inr rfl) (.inl ⟨rfl, hcall⟩)
  | found hi hr hwhere =>
      obtain ⟨rfl, hmeets⟩ := h.running hi
      exact h.put (.inl rfl) (.inl ⟨rfl, (hmeets _ (List.Subset.refl _)).1 _ hr hwhere⟩)
  | missing hi _ =>
      obtain ⟨rfl, hmeets⟩ := h.running hi
      exact h.put (.inl rfl) (.inl ⟨rfl, (hmeets _ (List.Subset.refl _)).2⟩)
  | inserted hi _ hcommitted hothers =>
      obtain ⟨rfl, hmeets⟩ := h.running hi
      exact h.insert hcommitted hothers (hmeets _ (List.Subset.refl _)).1
  | refused hi hr hconflict =>
      obtain ⟨-, hmeets⟩ := h.running hi
      obtain ⟨row, next, a, hi', hnext⟩ := hclear
      obtain ⟨hbody, rfl, -⟩ := Transaction.mk.inj (Status.running.inj (hi.symm.trans hi'))
      obtain ⟨rfl, rfl⟩ := Body.insert.inj hbody
      rw [List.append_nil] at hr
      exact h.put (.inr rfl)
        (.inr ⟨rfl, rfl, a, hnext, (hmeets _ (List.Subset.refl _)).2 a rfl hnext ⟨_, hr, hconflict⟩⟩)
  | rejected _ _ => exact absurd hclear not_false
  | given_up _ _ _ _ => exact absurd hclear not_false
  | select_failed hi =>
      obtain ⟨-, a, hbody, -⟩ := h.aborted hi
      cases hbody
  | insert_failed hi =>
      obtain ⟨-, a, hbody, -⟩ := h.aborted hi
      cases hbody
  | committed hi =>
      obtain ⟨rfl, hmeets⟩ := h.running hi
      exact h.commit hpost hmeets
  | rolled_back hi =>
      obtain ⟨-, a, hbody, hdone⟩ := h.aborted hi
      cases hbody
      exact h.put (.inr rfl) ⟨_, rfl, hdone⟩
  | @raised i _ _ aborted hi =>
      cases aborted with
      | false => exact absurd (h.running hi).2 not_false
      | true =>
          obtain ⟨-, a, hbody, -⟩ := h.aborted hi
          cases hbody

end Intact

/-- **Runs.** Where every call meets its postcondition from the first rows on, and these hold
different keys, all systems of a clear run are intact. -/
theorem Run.intact {s₀ : System ι ρ α} (h : Run S calls Clear s₀ s) (hpost : ∀ j, Lasting (post j))
    (hapart : Apart S s₀.committed) (hwaiting : ∀ i, s₀.status i = .waiting)
    (hmeets : ∀ i, (calls i).Meets S (post i) [] s₀.committed) : Intact S calls post s := by
  induction h with
  | refl =>
      have hpending : ∀ i, s₀.pending i = [] := fun i => by rw [System.pending, hwaiting i]; rfl
      refine ⟨hapart, fun i => ?_, fun i j _ r hr => ?_, fun i => ?_⟩
      · rw [hpending, List.append_nil]
        exact hapart
      · rw [hpending] at hr
        cases hr
      · rw [hwaiting i]
        exact hmeets i
  | step _ hstep hclear ih => exact ih.step hpost hclear hstep

end Runs

end Transactions
