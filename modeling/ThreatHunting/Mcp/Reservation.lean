import ThreatHunting.Mcp.Authorization
import ThreatHunting.Lib.Program

/-!
# ThreatHunting.Mcp.Reservation

`reserve_mcp_request`: a request is looked up by its subject and its idempotency key, and if it
is new, its audit record and its ledger row are inserted in one transaction. Another call may
commit between the two statements; what the unique constraint then does to the transaction is
the database's: PostgreSQL aborts it, SQLite undoes the one statement.
-/

namespace ThreatHunting

namespace Mcp

open Fallible

/-! ### Requests to reserve -/

/-- What a reservation writes of a request. -/
structure Reservation where
  request_id : String
  authenticated_subject : String
  idempotency_key : String
  action_digest : String
  tool : String
  deployment_scope_id : String
  hunt_id : Option String
  execution_id : Option String
  query_id : Option String
  approval_id : String
  execution_config_snapshot_id : String

/-- What reservations take from `db.py`. -/
structure Digests where
  action_digest : List (String × Value) → String
  deterministic_sid : String → String

section Requests

variable (rt : Runtime) (digests : Digests) (request : Request)

/-- `_request_digest`. -/
def request_digest : Except Failure String :=
  match (request.value ["action_digest"]).filter Value.truthy with
  | some digest => do
      require (isHash (rt.text digest)) .invalid_request "action digest invalid"
      pure (rt.text digest)
  | none =>
      let names := ["tool", "operation", "hunt_id", "execution_id", "query_id", "approval_id",
        "idempotency_key", "plan_sha256", "execution_config_sha256", "policy_version"]
      .ok (digests.action_digest (names.filterMap fun name => (request.value [name]).map (name, ·)))

/-- The text of an assertion, or a default. -/
def Request.textOr (names : List String) (default : String) : String :=
  ((request.value names).map rt.text).getD default

/-- What `reserve_mcp_request` reads of a request before it touches the database. -/
def reservation_of : Except Failure Reservation := do
  let action_digest ← request_digest rt digests request
  let authenticated_subject ← required (((request.value ["authenticated_subject"]).filter Value.truthy).map
    rt.text) .invalid_request "reservation assertions missing"
  let idempotency_key ← required (((request.value ["idempotency_key"]).filter Value.truthy).map rt.text)
    .invalid_request "reservation assertions missing"
  let request_id ← required (((request.value ["request_id"]).filter Value.truthy).map rt.text)
    .invalid_request "reservation assertions missing"
  pure {
    request_id, authenticated_subject, idempotency_key, action_digest
    tool := request.textOr rt ["tool", "operation"] "mcp_tool"
    deployment_scope_id := request.textOr rt ["deployment_scope_id"] ""
    hunt_id := (request.value ["hunt_id"]).map rt.text
    execution_id := (request.value ["execution_id"]).map rt.text
    query_id := (request.value ["query_id"]).map rt.text
    approval_id := request.textOr rt ["approval_id"] ""
    execution_config_snapshot_id :=
      request.textOr rt ["execution_config_snapshot_id", "config_snapshot_id"] "" }

end Requests

/-! ### The ledger and the audit records -/

/-- A row of `mcp_tool_requests`, as it is reserved. -/
structure LedgerRow where
  request_id : String
  authenticated_subject : String
  idempotency_key : String
  action_digest : String
  tool : String
  status : String
  deployment_scope_id : String
  hunt_id : String
  execution_id : Option String
  query_id : Option String
  approval_id : String
  execution_config_snapshot_id : String
  deterministic_sid : String
  created_at_utc : Instant
  updated_at_utc : Instant
  deriving DecidableEq

/-- A row of `audit_records`, as a reservation writes it. -/
structure AuditRow where
  audit_id : Uuid
  hunt_id : Option String
  request_id : String
  actor_type : String
  actor_id : String
  action : String
  object_type : String
  object_id : String
  outcome : String
  detail : String
  timestamp_utc : Instant
  deriving DecidableEq

/-- The reservations and their audit records, latest first. -/
structure Ledger where
  requests : List LedgerRow
  audits : List AuditRow
  deriving DecidableEq

/-- What the database does to a transaction whose statement violates a constraint. -/
inductive Dialect
  | postgresql
  | sqlite
  deriving DecidableEq

/-- One call of `reserve_mcp_request`: the request, what `uuid4` returns and what time it is. -/
structure Call where
  reservation : Reservation
  audit_id : Uuid
  now : Instant

section Calls

variable (digests : Digests) (call : Call)

/-- The ledger row a call inserts. -/
def Call.row : LedgerRow where
  request_id := call.reservation.request_id
  authenticated_subject := call.reservation.authenticated_subject
  idempotency_key := call.reservation.idempotency_key
  action_digest := call.reservation.action_digest
  tool := call.reservation.tool
  status := "reserved"
  deployment_scope_id := call.reservation.deployment_scope_id
  hunt_id := call.reservation.hunt_id.getD ""
  execution_id := call.reservation.execution_id
  query_id := call.reservation.query_id
  approval_id := call.reservation.approval_id
  execution_config_snapshot_id := call.reservation.execution_config_snapshot_id
  deterministic_sid := digests.deterministic_sid call.reservation.request_id
  created_at_utc := call.now
  updated_at_utc := call.now

/-- The audit record a call inserts. -/
def Call.audit : AuditRow where
  audit_id := call.audit_id
  hunt_id := call.reservation.hunt_id
  request_id := call.reservation.request_id
  actor_type := "worker"
  actor_id := call.reservation.authenticated_subject
  action := call.reservation.tool
  object_type := "mcp_tool_request"
  object_id := call.reservation.request_id
  outcome := "success"
  detail := "pre-submit authorization reservation"
  timestamp_utc := call.now

/-- Is the ledger row of this subject and idempotency key? -/
def LedgerRow.isOf (row : LedgerRow) (subject key : String) : Bool :=
  row.authenticated_subject = subject && row.idempotency_key = key

theorem LedgerRow.isOf_iff {row : LedgerRow} {subject key : String} :
    row.isOf subject key = true ↔ row.authenticated_subject = subject ∧ row.idempotency_key = key := by
  simp [LedgerRow.isOf]

/-- The row of a call's subject and idempotency key. -/
def Call.existing (db : Ledger) : Option LedgerRow :=
  db.requests.find? (·.isOf call.reservation.authenticated_subject call.reservation.idempotency_key)

/-- Would inserting the call's row violate the primary key or the unique constraint? -/
def Call.violates (db : Ledger) : Bool :=
  db.requests.any fun row => row.request_id = call.reservation.request_id ||
    row.isOf call.reservation.authenticated_subject call.reservation.idempotency_key

end Calls

/-- `ReplayStatus`, of a ledger that exists. -/
inductive ReplayStatus
  | new
  | replay
  | conflict
  deriving DecidableEq

/-- `ReplayCheck`. -/
structure ReplayCheck where
  status : ReplayStatus
  request_id : Option String
  action_digest : Option String
  deriving DecidableEq

/-- A text that is not empty. -/
def nonEmpty (s : String) : Option String := if s = "" then none else some s

/-- `check_mcp_request_replay`. -/
def check_mcp_request_replay (call : Call) (db : Ledger) : ReplayCheck :=
  match call.existing db with
  | none => ⟨.new, none, none⟩
  | some row =>
      ⟨if row.action_digest = call.reservation.action_digest then .replay else .conflict,
        nonEmpty row.request_id, nonEmpty row.action_digest⟩

/-- What a call ends with. -/
abbrev Outcome := Except Failure ReplayCheck

/-- A key that is taken by another request. -/
def keyConflict : Outcome := .error (.denied .replay_conflict "idempotency key conflict")

/-- A check that found the key taken: an exact replay, or a conflict. -/
def replayed (check : ReplayCheck) : Outcome := if check.status = .replay then .ok check else keyConflict

/-- The transaction of a call's two inserts. Where a constraint is violated, SQLite keeps the audit
record if the call then commits, which it does when the key turns out to be its own digest's. -/
def insertEffect (dialect : Dialect) (digests : Digests) (call : Call) (db : Ledger) : Option Ledger :=
  if call.violates db then
    match dialect with
    | .postgresql => none
    | .sqlite =>
        if (check_mcp_request_replay call db).status = .replay then
          some { db with audits := call.audit :: db.audits }
        else none
  else some ⟨call.row digests :: db.requests, call.audit :: db.audits⟩

/-- The calls of `reserve_mcp_request` as transactions; nothing else is asked. -/
abbrev reservations (dialect : Dialect) (digests : Digests) : Store.Signature Ledger where
  Question := Empty
  Answer := Empty.elim
  Transaction := Call
  effect := insertEffect dialect digests

/-- What follows an `IntegrityError`: PostgreSQL refuses the second look at the ledger, since the
transaction is aborted. -/
def afterIntegrityError (dialect : Dialect) (call : Call) (db : Ledger) : Outcome :=
  match dialect with
  | .postgresql => .error (.denied .database_failure "request denied")
  | .sqlite => replayed (check_mcp_request_replay call db)

section Programs

variable (dialect : Dialect) (digests : Digests) (call : Call)

/-- A client of the ledger. -/
abbrev Client := Store.Program (reservations dialect digests) (Call × Outcome)

/-- The two inserts, and what follows them. -/
def insertion : Client dialect digests :=
  .commit (S := reservations dialect digests) call fun db _ =>
    .pure (call, if call.violates db then afterIntegrityError dialect call db
      else .ok ⟨.new, some call.reservation.request_id, some call.reservation.action_digest⟩)

/-- `_reserve`, with the call beside what it ends with. -/
def reserve : Client dialect digests :=
  .read fun seen =>
    let existing := check_mcp_request_replay call seen
    if existing.status = .new then insertion dialect digests call else .pure (call, replayed existing)

/-- `reserve_mcp_request`; a request that lacks an assertion is denied before the database is asked. -/
def reserve_mcp_request (rt : Runtime) (request : Request) (audit_id : Uuid) (now : Instant) :
    Except Failure (Client dialect digests) := do
  let reservation ← reservation_of rt digests request
  pure (reserve dialect digests ⟨reservation, audit_id, now⟩)

end Programs

/-! ### One call's row -/

section Rows

variable {digests : Digests} {call : Call} {db : Ledger}

/-- The rows of a subject and an idempotency key. -/
def Ledger.taken (db : Ledger) (subject key : String) : Nat := db.requests.countP (·.isOf subject key)

/-- The constraints hold, and the reservations and their audit records correspond one to one. -/
structure Ledger.Sound (db : Ledger) : Prop where
  primary_key : (db.requests.map (·.request_id)).Nodup
  unique : ∀ subject key, db.taken subject key ≤ 1
  audited : ((db.audits.filter (·.object_type = "mcp_tool_request")).map (·.object_id)).Perm
    (db.requests.map (·.request_id))

/-- The call is one for this subject and this key. -/
def Call.isFor (call : Call) (subject key : String) : Prop :=
  call.reservation.authenticated_subject = subject ∧ call.reservation.idempotency_key = key

theorem Call.row_isOf : (call.row digests).isOf call.reservation.authenticated_subject
    call.reservation.idempotency_key = true := by
  rw [LedgerRow.isOf_iff]
  exact ⟨rfl, rfl⟩

/-- A call whose row violates nothing finds its key free. -/
theorem taken_of_not_violates (h : call.violates db = false) :
    db.taken call.reservation.authenticated_subject call.reservation.idempotency_key = 0 := by
  rw [Ledger.taken, List.countP_eq_zero]
  intro row hrow
  simp only [Call.violates, List.any_eq_false, Bool.or_eq_true, not_or] at h
  exact (h row hrow).2

/-- Inserting a row that violates nothing keeps the ledger sound. -/
theorem Ledger.Sound.insert (hs : db.Sound) (h : call.violates db = false) :
    Ledger.Sound ⟨call.row digests :: db.requests, call.audit :: db.audits⟩ where
  primary_key := by
    refine List.nodup_cons.mpr ⟨?_, hs.primary_key⟩
    intro hmem
    obtain ⟨row, hrow, hid⟩ := List.mem_map.mp hmem
    simp only [Call.violates, List.any_eq_false, Bool.or_eq_true, not_or, decide_eq_true_eq] at h
    exact (h row hrow).1 hid
  unique subject key := by
    have hfree := taken_of_not_violates h
    have hone := hs.unique subject key
    simp only [Ledger.taken, List.countP_cons] at hfree hone ⊢
    split
    next hof =>
      obtain ⟨hsubject, hkey⟩ := LedgerRow.isOf_iff.mp hof
      obtain rfl : call.reservation.authenticated_subject = subject := hsubject
      obtain rfl : call.reservation.idempotency_key = key := hkey
      omega
    next => omega
  audited := by
    simpa [Call.audit, Call.row] using hs.audited

end Rows

/-! ### Runs -/

section Runs

variable {dialect : Dialect} {digests : Digests} {subject key : String}

/-- An insert is tried only while no row violates it: no other call has committed the key since
this one looked, and no row has its request id. -/
def Unraced (p : Client dialect digests) (h : Store.History (reservations dialect digests)) : Prop :=
  match p with
  | .commit t _ => Call.violates t h.now = false
  | _ => True

/-- The calls for one subject and one key. -/
def CallsFor (subject key : String) (p : Client dialect digests) : Prop :=
  ∃ call : Call, call.isFor subject key ∧ p = reserve dialect digests call

/-- A request that is not denied at once is such a call. -/
theorem callsFor_of_reserve {rt : Runtime} {request : Request} {audit_id : Uuid} {now : Instant}
    {p : Client dialect digests} (h : reserve_mcp_request dialect digests rt request audit_id now = .ok p) :
    ∃ reservation, reservation_of rt digests request = .ok reservation ∧
      CallsFor reservation.authenticated_subject reservation.idempotency_key p := by
  obtain ⟨reservation, hreservation, h⟩ := bind_eq_ok.mp h
  cases h
  exact ⟨reservation, hreservation, _, ⟨rfl, rfl⟩, rfl⟩

/-- Has the client returned NEW? -/
def returnsNew : Client dialect digests → Bool
  | .pure (_, .ok check) => check.status = .new
  | _ => false

/-- What a call should end with, when the key is this row's: NEW if it is the call's own, REPLAY if
it has the call's digest, a conflict otherwise. -/
inductive Answers (digests : Digests) (call : Call) (row : LedgerRow) : Outcome → Prop
  | new : row = call.row digests →
      Answers digests call row (.ok ⟨.new, some call.reservation.request_id, some call.reservation.action_digest⟩)
  | replay : row.action_digest = call.reservation.action_digest →
      Answers digests call row (.ok ⟨.replay, nonEmpty row.request_id, nonEmpty row.action_digest⟩)
  | conflict : row.action_digest ≠ call.reservation.action_digest → Answers digests call row keyConflict

/-- Where a call may be in its program. -/
inductive Phase (call : Call) : Client dialect digests → Prop
  | looking : Phase call (reserve dialect digests call)
  | inserting : Phase call (insertion dialect digests call)
  | ended (outcome : Outcome) : Phase call (.pure (call, outcome))

/-- What holds between the ledger and the calls. -/
structure Reserved (s₀ : Ledger) (subject key : String) (h : Store.History (reservations dialect digests))
    (ps : List (Client dialect digests)) : Prop where
  sound : h.now.Sound
  phases : ∀ p ∈ ps, ∃ call : Call, call.isFor subject key ∧ Phase call p
  news : ps.countP returnsNew + s₀.taken subject key = h.now.taken subject key
  answers : ∀ call outcome, .pure (call, outcome) ∈ ps →
    ∃ row, call.existing h.now = some row ∧ Answers digests call row outcome

section Steps

variable {s₀ : Ledger} {h h' : Store.History (reservations dialect digests)}
  {ps qs : List (Client dialect digests)} {p p' : Client dialect digests} {call : Call}

/-- A client that ends where the ledger stays has to end as the ledger's row says. -/
theorem Reserved.replace (hr : Reserved s₀ subject key h (ps ++ p :: qs)) (hp : returnsNew p = false)
    (hfor : call.isFor subject key) (hphase : Phase call p') (hnew : returnsNew p' = false)
    (hanswer : ∀ call' outcome, p' = .pure (call', outcome) →
      ∃ row, call'.existing h.now = some row ∧ Answers digests call' row outcome) :
    Reserved s₀ subject key h (ps ++ p' :: qs) where
  sound := hr.sound
  phases q hq := by
    obtain hq | rfl | hq := List.mem_append.mp hq |>.imp id List.mem_cons.mp
    · exact hr.phases q (by simp [hq])
    · exact ⟨call, hfor, hphase⟩
    · exact hr.phases q (by simp [hq])
  news := by
    have hcount := hr.news
    simp only [List.countP_append, List.countP_cons, hp, hnew] at hcount ⊢
    exact hcount
  answers call' outcome hq := by
    obtain hq | hq | hq := List.mem_append.mp hq |>.imp id List.mem_cons.mp
    · exact hr.answers call' outcome (by simp [hq])
    · exact hanswer call' outcome hq.symm
    · exact hr.answers call' outcome (by simp [hq])

/-- A call that finds its key taken ends as the row says. -/
theorem answers_of_existing {row : LedgerRow} (h : call.existing db = some row) :
    Answers digests call row (replayed (check_mcp_request_replay call db)) := by
  simp only [check_mcp_request_replay, h, replayed]
  by_cases heq : row.action_digest = call.reservation.action_digest
  · have hreplay : Answers digests call row _ := .replay heq
    simpa [heq] using hreplay
  · have hconflict : Answers digests call row _ := .conflict heq
    simpa [heq] using hconflict

/-- No call has ended while the key is free. -/
theorem Reserved.none_ended (hr : Reserved s₀ subject key h ps) (hfor : call.isFor subject key)
    (hfree : call.violates h.now = false) (call' : Call) (outcome : Outcome) :
    (.pure (call', outcome) : Client dialect digests) ∉ ps := by
  intro hmem
  obtain ⟨row, hrow, -⟩ := hr.answers call' outcome hmem
  obtain ⟨call'', hfor'', hphase⟩ := hr.phases _ hmem
  have hsame : call'' = call' := by
    cases hphase
    rfl
  subst hsame
  have hnone := taken_of_not_violates hfree
  rw [hfor.1, hfor.2, Ledger.taken, List.countP_eq_zero] at hnone
  rw [Call.existing, hfor''.1, hfor''.2] at hrow
  have hof : row.isOf subject key = true := by simpa using List.find?_some hrow
  exact hnone row (List.mem_of_find?_eq_some hrow) hof

/-- An insert that violates nothing takes the key, and its call returns NEW. -/
theorem Reserved.insert (hr : Reserved s₀ subject key h (ps ++ insertion dialect digests call :: qs))
    (hfor : call.isFor subject key) (hfree : call.violates h.now = false) :
    Reserved s₀ subject key
      (h.commit (S := reservations dialect digests) call ⟨call.row digests :: h.now.requests, call.audit :: h.now.audits⟩)
      (ps ++ .pure (call, .ok ⟨.new, some call.reservation.request_id, some call.reservation.action_digest⟩) :: qs) where
  sound := hr.sound.insert hfree
  phases q hq := by
    obtain hq | rfl | hq := List.mem_append.mp hq |>.imp id List.mem_cons.mp
    · exact hr.phases q (by simp [hq])
    · exact ⟨call, hfor, .ended _⟩
    · exact hr.phases q (by simp [hq])
  news := by
    have hcount := hr.news
    have hof : (call.row digests).isOf subject key = true := by
      rw [← hfor.1, ← hfor.2]
      exact Call.row_isOf
    have hbefore : returnsNew (insertion dialect digests call) = false := rfl
    have hafter : returnsNew (.pure (call, .ok ⟨.new, some call.reservation.request_id,
        some call.reservation.action_digest⟩) : Client dialect digests) = true := rfl
    simp only [List.countP_append, List.countP_cons, hbefore, hafter, Ledger.taken, Store.History.now_commit,
      hof, if_true, Bool.false_eq_true, if_false] at hcount ⊢
    omega
  answers call' outcome hq := by
    obtain hq | hq | hq := List.mem_append.mp hq |>.imp id List.mem_cons.mp
    · exact absurd (by simp [hq]) (hr.none_ended hfor hfree call' outcome)
    · cases hq
      refine ⟨call.row digests, ?_, .new rfl⟩
      exact List.find?_cons_of_pos Call.row_isOf
    · exact absurd (by simp [hq]) (hr.none_ended hfor hfree call' outcome)

/-- A call that finds its key taken does not return NEW. -/
theorem returnsNew_replayed (check : ReplayCheck) :
    returnsNew (.pure (call, replayed check) : Client dialect digests) = false := by
  unfold replayed
  split
  next h => simp [returnsNew, h]
  next => rfl

/-- One step of one client that inserts only unraced. -/
theorem Reserved.step (hr : Reserved s₀ subject key h (ps ++ p :: qs)) (hmay : Unraced p h)
    (st : Store.Program.Step p h p' h') : Reserved s₀ subject key h' (ps ++ p' :: qs) := by
  obtain ⟨call, hfor, hphase⟩ := hr.phases p (by simp)
  cases hphase with
  | looking =>
      cases st
      dsimp only
      by_cases hnew : (check_mcp_request_replay call h.now).status = .new
      · rw [if_pos hnew]
        refine hr.replace rfl hfor .inserting rfl ?_
        intro call' outcome hpure
        cases hpure
      · rw [if_neg hnew]
        cases hexisting : call.existing h.now with
        | none => exact absurd (by simp [check_mcp_request_replay, hexisting]) hnew
        | some row =>
            refine hr.replace rfl hfor (.ended _) (returnsNew_replayed _) ?_
            intro call' outcome hpure
            cases hpure
            exact ⟨row, hexisting, answers_of_existing hexisting⟩
  | inserting =>
      have hfree : call.violates h.now = false := hmay
      have heffect : insertEffect dialect digests call h.now =
          some ⟨call.row digests :: h.now.requests, call.audit :: h.now.audits⟩ := by
        simp [insertEffect, hfree]
      cases st with
      | accept htx =>
          obtain rfl := Option.some.inj (heffect.symm.trans htx)
          simpa [hfree] using hr.insert hfor hfree
      | refuse htx =>
          cases heffect.symm.trans htx
  | ended outcome => cases st

end Steps

/-- What holds in every run whose inserts are unraced. -/
theorem reserved_of_run {s₀ : Ledger} (hs : s₀.Sound) {h : Store.History (reservations dialect digests)}
    {ps : List (Client dialect digests)}
    (run : Store.Pool.RunWhere (CallsFor subject key) Unraced s₀ h ps) : Reserved s₀ subject key h ps := by
  induction run with
  | init =>
      exact {
        sound := hs
        phases := by simp
        news := by simp
        answers := by simp }
  | start _ hp ih =>
      obtain ⟨call, hfor, rfl⟩ := hp
      exact {
        sound := ih.sound
        phases := by
          intro q hq
          obtain rfl | hq := List.mem_cons.mp hq
          · exact ⟨call, hfor, .looking⟩
          · exact ih.phases q hq
        news := by
          have hstart : returnsNew (reserve dialect digests call) = false := rfl
          simpa [List.countP_cons, hstart] using ih.news
        answers := by
          intro call' outcome hq
          obtain hq | hq := List.mem_cons.mp hq
          · cases hq
          · exact ih.answers call' outcome hq }
  | step _ hmay st ih => exact ih.step hmay st

/-- Exactly one of the calls for a key that was free returns NEW, every other call with the digest of
the key's row returns REPLAY, every call with another digest is a conflict, and the audit records are
one to one with the ledger rows. -/
structure ExactlyOnce (s₀ : Ledger) (subject key : String) (h : Store.History (reservations dialect digests))
    (ps : List (Client dialect digests)) : Prop where
  one_new : ∀ call outcome, .pure (call, outcome) ∈ ps → ps.countP returnsNew + s₀.taken subject key = 1
  answers : ∀ call outcome, .pure (call, outcome) ∈ ps →
    ∃ row ∈ h.now.requests, row.isOf subject key = true ∧ Answers digests call row outcome
  sound : h.now.Sound

/-- In every interleaving in which no insert is tried after another call has taken the key or the
request id, reservations are exactly once. -/
theorem reservations_exactly_once (dialect : Dialect) (digests : Digests) (subject key : String)
    (s₀ : Ledger) (hs : s₀.Sound) (h : Store.History (reservations dialect digests))
    (ps : List (Client dialect digests))
    (run : Store.Pool.RunWhere (CallsFor subject key) Unraced s₀ h ps) : ExactlyOnce s₀ subject key h ps := by
  have hr := reserved_of_run hs run
  have taken : ∀ call outcome, .pure (call, outcome) ∈ ps →
      ∃ row ∈ h.now.requests, row.isOf subject key = true ∧ Answers digests call row outcome := by
    intro call outcome hmem
    obtain ⟨row, hrow, hanswer⟩ := hr.answers call outcome hmem
    obtain ⟨call', hfor, hphase⟩ := hr.phases _ hmem
    cases hphase
    rw [Call.existing, hfor.1, hfor.2] at hrow
    exact ⟨row, List.mem_of_find?_eq_some hrow, by simpa using List.find?_some hrow, hanswer⟩
  exact {
    one_new := by
      intro call outcome hmem
      obtain ⟨row, hrow, hof, -⟩ := taken call outcome hmem
      have hpos : 0 < h.now.taken subject key := List.countP_pos_iff.mpr ⟨row, hrow, hof⟩
      have hone := hr.sound.unique subject key
      have hcount := hr.news
      omega
    answers := taken
    sound := hr.sound }

end Runs

/-! ### Two calls at once -/

/-- Digests of a deployment whose requests assert theirs. -/
def sampleDigests : Digests where
  action_digest _ := ""
  deterministic_sid request_id := "mcp-" ++ request_id

/-- A call for one key. -/
def sampleCall (request_id audit_id : String) : Call where
  reservation := {
    request_id, authenticated_subject := "worker/customer-a", idempotency_key := "idem-1",
    action_digest := .ofList (.replicate 64 'e'), tool := "generic_spl", deployment_scope_id := "customer-a", hunt_id := some "hunt"
    execution_id := none, query_id := none, approval_id := "approval"
    execution_config_snapshot_id := "config" }
  audit_id
  now := 100

theorem sampleCall_isFor (dialect : Dialect) (request_id audit_id : String) :
    CallsFor "worker/customer-a" "idem-1"
      (reserve dialect sampleDigests (sampleCall request_id audit_id)) :=
  ⟨sampleCall request_id audit_id, ⟨rfl, rfl⟩, rfl⟩

/-- One call, alone. -/
theorem reservation_alone :
    ∃ (h : Store.History (reservations .postgresql sampleDigests)) (outcome : Outcome),
      ExactlyOnce ⟨[], []⟩ "worker/customer-a" "idem-1" h [.pure (sampleCall "r1" "a1", outcome)] := by
  have empty : Ledger.Sound ⟨[], []⟩ := ⟨by simp, by simp [Ledger.taken], by simp⟩
  let call := sampleCall "r1" "a1"
  have started : Store.Pool.RunWhere (CallsFor "worker/customer-a" "idem-1") Unraced ⟨[], []⟩ ⟨⟨[], []⟩, []⟩
      ([] ++ reserve .postgresql sampleDigests call :: []) :=
    .start .init (sampleCall_isFor .postgresql "r1" "a1")
  have looked : Store.Pool.RunWhere (CallsFor "worker/customer-a" "idem-1") Unraced ⟨[], []⟩ ⟨⟨[], []⟩, []⟩
      ([] ++ insertion .postgresql sampleDigests call :: []) := .step started trivial .read
  have inserted := Store.Pool.RunWhere.step looked rfl (.accept rfl)
  exact ⟨_, _, reservations_exactly_once _ _ _ _ _ empty _ _ inserted⟩

/-- Both calls look, the first inserts, and the second inserts after it. -/
def raced (dialect : Dialect) : List (Store.Pool.Turn (reservations dialect sampleDigests) (Call × Outcome)) :=
  let noAnswer : ∀ q, (reservations dialect sampleDigests).Answer q := fun q => nomatch q
  [.start (reserve dialect sampleDigests (sampleCall "r1" "a1")),
    .start (reserve dialect sampleDigests (sampleCall "r2" "a2")),
    .step 0 noAnswer, .step 1 noAnswer, .step 1 noAnswer, .step 0 noAnswer]

/-- Two calls of one digest. PostgreSQL refuses the loser's second look, so that it ends with a database
failure instead of REPLAY; SQLite keeps the loser's audit record, which has no ledger row. -/
theorem racing_calls_are_not_exactly_once :
    (∃ h ps, Store.Pool.Run (CallsFor "worker/customer-a" "idem-1") ⟨[], []⟩ h ps ∧
      (.pure (sampleCall "r2" "a2", .error (.denied .database_failure "request denied")) :
        Client .postgresql sampleDigests) ∈ ps) ∧
    ∃ (h : Store.History (reservations .sqlite sampleDigests)) (ps : List (Client .sqlite sampleDigests)),
      Store.Pool.Run (CallsFor "worker/customer-a" "idem-1") ⟨[], []⟩ h ps ∧
      h.now.requests.length = 1 ∧ h.now.audits.length = 2 := by
  have calls : ∀ dialect, ∀ t ∈ raced dialect, ∀ p ∈ t.program, CallsFor "worker/customer-a" "idem-1" p := by
    intro dialect t ht p hp
    simp only [raced, List.mem_cons, List.not_mem_nil, or_false] at ht
    obtain rfl | rfl | rfl | rfl | rfl | rfl := ht
    · obtain rfl := Option.some.inj hp
      exact sampleCall_isFor dialect "r1" "a1"
    · obtain rfl := Option.some.inj hp
      exact sampleCall_isFor dialect "r2" "a2"
    all_goals cases hp
  constructor
  · refine ⟨_, _, Store.Pool.exec_run (raced .postgresql) (calls .postgresql), ?_⟩
    exact List.mem_cons_self
  · exact ⟨_, _, Store.Pool.exec_run (raced .sqlite) (calls .sqlite), rfl, rfl⟩

end Mcp

end ThreatHunting
