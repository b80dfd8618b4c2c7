import Mathlib

/-!
# ThreatHunting.Auth.LoginLimits

`LoginRateLimiter` of `auth/service.py`: a table of failed logins by bucket, one bucket for the
account and one for the client. A bucket with too many failures in a window is blocked for the length
of a window. Each call is one transaction, so that a run is a sequence of calls at their times.
-/

namespace ThreatHunting

namespace LoginLimits

/-! ### The limiter -/

/-- A row of `login_rate_limits`; times are in microseconds. -/
structure LimitRow where
  failure_count : Nat
  window_started_at_utc : Int
  blocked_until_utc : Option Int
  updated_at_utc : Int
  deriving DecidableEq, Repr

/-- `login_rate_limits`, by `bucket_hash`. -/
abbrev Limits := String → Option LimitRow

/-- `LoginRateLimiter`, and the hash function that it takes from the library. -/
structure LoginRateLimiter where
  max_client_failures : Nat := 5
  max_account_failures : Nat := 25
  window : Int := 900000000
  sha256 : String → String
  valid : 0 < max_client_failures ∧ max_client_failures ≤ max_account_failures

namespace LoginRateLimiter

variable (limiter : LoginRateLimiter)

/-- `_bucket_hash`. -/
def bucket_hash (dimension value : String) : String := limiter.sha256 (dimension ++ ":" ++ value)

/-- `_buckets`: each bucket with the failures that it may have. -/
def buckets (username client_key : String) : List (String × Nat) :=
  let client := if client_key = "" then "unknown" else client_key
  [(limiter.bucket_hash "account" username, limiter.max_account_failures),
    (limiter.bucket_hash "client" client, limiter.max_client_failures)]

/-- `_cleanup`: rows that are older than a window are deleted, unless they are blocked. -/
def cleanup (limits : Limits) (now : Int) : Limits := fun bucket =>
  (limits bucket).filter fun row =>
    !(row.updated_at_utc ≤ now - limiter.window && row.blocked_until_utc.all (· ≤ now))

/-- `allowed`: the table, cleaned up, and the answer. -/
def allowed (limits : Limits) (username client_key : String) (now : Int) : Limits × Bool :=
  let limits := limiter.cleanup limits now
  let rows := (limiter.buckets username client_key).filterMap fun bucket => limits bucket.1
  (limits, !rows.any fun row => row.blocked_until_utc.any (now < ·))

/-- The row of a bucket after one more failure: what is inserted, or the row after the update. -/
def next_row (now : Int) (max_failures : Nat) : Option LimitRow → LimitRow
  | none => ⟨1, now, if max_failures = 1 then some (now + limiter.window) else none, now⟩
  | some row =>
      if row.window_started_at_utc ≤ now - limiter.window then
        -- the window is over: a new one starts, and the block of the old one is gone with it
        ⟨1, now, if max_failures = 1 then some (now + limiter.window) else none, now⟩
      else
        ⟨row.failure_count + 1, row.window_started_at_utc,
          if max_failures ≤ row.failure_count + 1 then some (now + limiter.window) else row.blocked_until_utc, now⟩

/-- `_record_bucket`. -/
def record_bucket (now : Int) (limits : Limits) (bucket : String × Nat) : Limits :=
  Function.update limits bucket.1 (some (limiter.next_row now bucket.2 (limits bucket.1)))

/-- `record_failure`. -/
def record_failure (limits : Limits) (username client_key : String) (now : Int) : Limits :=
  (limiter.buckets username client_key).foldl (limiter.record_bucket now) (limiter.cleanup limits now)

/-- `clear`. -/
def clear (limits : Limits) (username client_key : String) : Limits := fun bucket =>
  if bucket ∈ (limiter.buckets username client_key).map (·.1) then none else limits bucket

end LoginRateLimiter

/-! ### Runs -/

/-- A call of the limiter. -/
inductive Call
  | allowed (username client_key : String)
  | record_failure (username client_key : String)
  | clear (username client_key : String)

variable (limiter : LoginRateLimiter)

/-- What a call leaves of the table. -/
def step (limits : Limits) : Int × Call → Limits
  | (now, .allowed username client_key) => (limiter.allowed limits username client_key now).1
  | (now, .record_failure username client_key) => limiter.record_failure limits username client_key now
  | (_, .clear username client_key) => limiter.clear limits username client_key

/-- What a sequence of calls leaves of the table. -/
def run (limits : Limits) (calls : List (Int × Call)) : Limits := calls.foldl (step limiter) limits

/-- The call clears a bucket. -/
def Clears (bucket : String) : Call → Prop
  | .clear username client_key => bucket ∈ (limiter.buckets username client_key).map (·.1)
  | _ => False

/-- The call records no failure of the bucket after the end of the bucket's window, unless one failure is enough to
block the bucket again. -/
def InWindow (bucket : String) (limits : Limits) : Int × Call → Prop
  | (now, .record_failure username client_key) =>
      ∀ most, (bucket, most) ∈ limiter.buckets username client_key →
        most = 1 ∨ ∀ row ∈ limits bucket, now - limiter.window < row.window_started_at_utc
  | _ => True

/-- Before a time, every call of a run records the failures of a bucket in its window. -/
def Timely (bucket : String) (until_utc : Int) : Limits → List (Int × Call) → Prop
  | _, [] => True
  | limits, call :: calls =>
      (call.1 < until_utc → InWindow limiter bucket limits call) ∧ Timely bucket until_utc (step limiter limits call) calls

/-- The bucket is blocked until a time, or longer. -/
def BlockedUntil (limits : Limits) (bucket : String) (until_utc : Int) : Prop :=
  ∃ row ∈ limits bucket, ∃ blocked_until ∈ row.blocked_until_utc, until_utc ≤ blocked_until

/-- No block is for longer than a window from now. -/
def Bounded (limits : Limits) (now : Int) : Prop :=
  ∀ bucket, ∀ row ∈ limits bucket, ∀ blocked_until ∈ row.blocked_until_utc, blocked_until ≤ now + limiter.window

variable {limiter} {limits : Limits} {bucket : String} {until_utc now now' : Int}

/-! ### The steps -/

section Steps

theorem Bounded.mono (h : Bounded limiter limits now) (hle : now ≤ now') : Bounded limiter limits now' := by
  intro bucket row hrow blocked_until hblocked
  have := h bucket row hrow blocked_until hblocked
  omega

theorem mem_cleanup {row : LimitRow} (h : row ∈ limiter.cleanup limits now bucket) : row ∈ limits bucket :=
  (Option.mem_filter_iff.mp h).1

theorem bounded_cleanup (h : Bounded limiter limits now) : Bounded limiter (limiter.cleanup limits now) now :=
  fun bucket row hrow => h bucket row (mem_cleanup hrow)

/-- A block that is not over stays. -/
theorem blocked_cleanup (h : BlockedUntil limits bucket until_utc) (hnow : now < until_utc) :
    BlockedUntil (limiter.cleanup limits now) bucket until_utc := by
  obtain ⟨row, hrow, blocked_until, hblocked, hle⟩ := h
  refine ⟨row, Option.mem_filter_iff.mpr ⟨hrow, ?_⟩, blocked_until, hblocked, hle⟩
  have hactive : row.blocked_until_utc.all (· ≤ now) = false := by
    rw [Option.mem_def.mp hblocked]
    simpa using by omega
  simp [hactive]

theorem record_bucket_self (other : String × Nat) :
    limiter.record_bucket now limits other other.1 = some (limiter.next_row now other.2 (limits other.1)) :=
  Function.update_self ..

/-- A block is of the length of a window from now, or it was there before. -/
theorem blocked_of_next {most : Nat} {old : Option LimitRow} {blocked_until : Int}
    (h : blocked_until ∈ (limiter.next_row now most old).blocked_until_utc) :
    blocked_until = now + limiter.window ∨ ∃ row ∈ old, blocked_until ∈ row.blocked_until_utc := by
  cases old with
  | none =>
      simp only [LoginRateLimiter.next_row, Option.mem_def, Option.ite_none_right_eq_some, Option.some.injEq] at h
      exact .inl h.2.symm
  | some row =>
      simp only [LoginRateLimiter.next_row] at h
      split at h
      next =>
        simp only [Option.mem_def, Option.ite_none_right_eq_some, Option.some.injEq] at h
        exact .inl h.2.symm
      next =>
        dsimp only at h
        split at h
        · exact .inl (Option.some.inj h).symm
        · exact .inr ⟨row, rfl, h⟩

theorem record_bucket_of_ne {other : String × Nat} (h : bucket ≠ other.1) :
    limiter.record_bucket now limits other bucket = limits bucket :=
  Function.update_of_ne h _ _

theorem bounded_record (h : Bounded limiter limits now) (other : String × Nat) :
    Bounded limiter (limiter.record_bucket now limits other) now := by
  intro bucket row hrow blocked_until hblocked
  by_cases hsame : bucket = other.1
  · subst hsame
    rw [record_bucket_self, Option.mem_some_iff] at hrow
    subst hrow
    rcases blocked_of_next hblocked with rfl | ⟨old, hold, hkept⟩
    · exact le_rfl
    · exact h _ old hold _ hkept
  · rw [record_bucket_of_ne hsame] at hrow
    exact h bucket row hrow blocked_until hblocked

/-- A failure recorded in its window leaves a bucket blocked, and in a window that is not over. -/
theorem blocked_record {most : Nat} (hbounded : Bounded limiter limits now) (h : BlockedUntil limits bucket until_utc)
    (hnow : now < until_utc)
    (hwindow : most = 1 ∨ ∀ row ∈ limits bucket, now - limiter.window < row.window_started_at_utc) :
    BlockedUntil (limiter.record_bucket now limits (bucket, most)) bucket until_utc ∧
      ∀ row ∈ limiter.record_bucket now limits (bucket, most) bucket, now - limiter.window < row.window_started_at_utc := by
  obtain ⟨row, hrow, blocked_until, hblocked, hle⟩ := h
  have hnew : until_utc ≤ now + limiter.window := hle.trans (hbounded bucket row hrow blocked_until hblocked)
  rw [BlockedUntil, record_bucket_self (bucket, most), Option.mem_def.mp hrow]
  simp only [Option.mem_def, Option.some.injEq, exists_eq_left', forall_eq', LoginRateLimiter.next_row]
  split
  next hover =>
    -- a window that is over: one failure is enough
    have hone : most = 1 := hwindow.resolve_right fun hin => absurd (hin row hrow) (by omega)
    subst hone
    exact ⟨⟨_, rfl, hnew⟩, by dsimp only; omega⟩
  next hin =>
    refine ⟨?_, not_le.mp hin⟩
    dsimp only
    split
    · exact ⟨_, rfl, hnew⟩
    · exact ⟨blocked_until, hblocked, hle⟩

theorem blocked_of_ne {other : String × Nat} (hne : bucket ≠ other.1) :
    (BlockedUntil (limiter.record_bucket now limits other) bucket until_utc ↔ BlockedUntil limits bucket until_utc) := by
  rw [BlockedUntil, BlockedUntil, record_bucket_of_ne hne]

/-- A call's failures, one bucket after the other. -/
theorem blocked_records {buckets : List (String × Nat)} (hbounded : Bounded limiter limits now)
    (h : BlockedUntil limits bucket until_utc) (hnow : now < until_utc)
    (hwindow : ∀ most, (bucket, most) ∈ buckets →
      most = 1 ∨ ∀ row ∈ limits bucket, now - limiter.window < row.window_started_at_utc) :
    BlockedUntil (buckets.foldl (limiter.record_bucket now) limits) bucket until_utc := by
  induction buckets generalizing limits with
  | nil => exact h
  | cons other buckets ih =>
      have hrest : ∀ most, (bucket, most) ∈ buckets →
          most = 1 ∨ ∀ row ∈ limits bucket, now - limiter.window < row.window_started_at_utc :=
        fun most hmost => hwindow most (List.mem_cons_of_mem _ hmost)
      by_cases hsame : bucket = other.1
      · obtain ⟨hblocked, hin⟩ := blocked_record hbounded h hnow
          (hwindow other.2 (hsame ▸ List.mem_cons_self))
        have hother : other = (bucket, other.2) := Prod.ext hsame.symm rfl
        rw [List.foldl_cons, hother]
        exact ih (hother ▸ bounded_record hbounded other) hblocked fun most _ => .inr hin
      · rw [List.foldl_cons]
        refine ih (bounded_record hbounded other) ((blocked_of_ne hsame).mpr h) fun most hmost => ?_
        rw [record_bucket_of_ne hsame]
        exact hrest most hmost

theorem bounded_records {buckets : List (String × Nat)} (h : Bounded limiter limits now) :
    Bounded limiter (buckets.foldl (limiter.record_bucket now) limits) now := by
  induction buckets generalizing limits with
  | nil => exact h
  | cons other buckets ih => exact ih (bounded_record h other)

/-- **Step, bounds.** No call makes a block that is longer than a window. -/
theorem bounded_step {call : Int × Call} (h : Bounded limiter limits now) (hle : now ≤ call.1) :
    Bounded limiter (step limiter limits call) call.1 := by
  have hthen := h.mono hle
  obtain ⟨time, call⟩ := call
  cases call with
  | allowed username client_key => exact bounded_cleanup hthen
  | record_failure username client_key => exact bounded_records (bounded_cleanup hthen)
  | clear username client_key =>
      intro bucket row hrow
      refine hthen bucket row ?_
      simp only [step, LoginRateLimiter.clear] at hrow
      split at hrow
      · cases hrow
      · exact hrow

/-- **Step, block.** Until a block is over, a call that keeps to the bucket's window leaves it. -/
theorem blocked_step {call : Int × Call} (hbounded : Bounded limiter limits now) (hle : now ≤ call.1)
    (h : BlockedUntil limits bucket until_utc) (hnow : call.1 < until_utc) (hclear : ¬Clears limiter bucket call.2)
    (hwindow : InWindow limiter bucket limits call) :
    BlockedUntil (step limiter limits call) bucket until_utc := by
  have hthen := hbounded.mono hle
  obtain ⟨time, call⟩ := call
  cases call with
  | allowed username client_key => exact blocked_cleanup h hnow
  | record_failure username client_key =>
      refine blocked_records (bounded_cleanup hthen) (blocked_cleanup h hnow) hnow fun most hmost => ?_
      rcases hwindow most hmost with hone | hin
      · exact .inl hone
      · exact .inr fun row hrow => hin row (mem_cleanup hrow)
  | clear username client_key =>
      obtain ⟨row, hrow, hrest⟩ := h
      have hkept : limiter.clear limits username client_key bucket = limits bucket := if_neg hclear
      refine ⟨row, ?_, hrest⟩
      show row ∈ limiter.clear limits username client_key bucket
      rwa [hkept]

end Steps

/-! ### The runs -/

section Runs

theorem bounded_run {calls : List (Int × Call)} (h : Bounded limiter limits now)
    (hordered : (now :: calls.map (·.1)).Pairwise (· ≤ ·)) (hlast : ∀ call ∈ calls, call.1 ≤ now') (hle : now ≤ now') :
    Bounded limiter (run limiter limits calls) now' := by
  induction calls generalizing limits now with
  | nil => exact h.mono hle
  | cons call calls ih =>
      obtain ⟨hfirst, hrest⟩ := List.pairwise_cons.mp hordered
      obtain ⟨hcall, hlast⟩ := List.forall_mem_cons.mp hlast
      exact ih (bounded_step h (hfirst _ List.mem_cons_self)) hrest hlast hcall

/-- **Run.** Until a block is over, calls that keep to the bucket's window leave it. -/
theorem blocked_run {calls : List (Int × Call)} (hbounded : Bounded limiter limits now)
    (h : BlockedUntil limits bucket until_utc) (hordered : (now :: calls.map (·.1)).Pairwise (· ≤ ·))
    (hlast : ∀ call ∈ calls, call.1 < until_utc) (hclear : ∀ call ∈ calls, ¬Clears limiter bucket call.2)
    (htimely : Timely limiter bucket until_utc limits calls) :
    BlockedUntil (run limiter limits calls) bucket until_utc := by
  induction calls generalizing limits now with
  | nil => exact h
  | cons call calls ih =>
      obtain ⟨hfirst, hrest⟩ := List.pairwise_cons.mp hordered
      obtain ⟨hcall, hlast⟩ := List.forall_mem_cons.mp hlast
      obtain ⟨hkept, hclear⟩ := List.forall_mem_cons.mp hclear
      obtain ⟨hwindow, htimely⟩ := htimely
      have hle := hfirst _ List.mem_cons_self
      exact ih (bounded_step hbounded hle) (blocked_step hbounded hle h hcall hkept (hwindow hcall)) hrest hlast hclear htimely

/-- A blocked bucket is not allowed. -/
theorem not_allowed_of_blocked {username client_key : String} (h : BlockedUntil limits bucket until_utc)
    (hnow : now < until_utc) (hbucket : bucket ∈ (limiter.buckets username client_key).map (·.1)) :
    (limiter.allowed limits username client_key now).2 = false := by
  have hkept : BlockedUntil (limiter.cleanup limits now) bucket until_utc := blocked_cleanup h hnow
  obtain ⟨row, hrow, blocked_until, hblocked, hle⟩ := hkept
  obtain ⟨pair, hpair, rfl⟩ := List.mem_map.mp hbucket
  rw [LoginRateLimiter.allowed, Bool.not_eq_false', List.any_eq_true]
  refine ⟨row, List.mem_filterMap.mpr ⟨pair, hpair, hrow⟩, ?_⟩
  rw [Option.mem_def.mp hblocked]
  simpa using by omega

/-- **Block.** In every run from an empty table, once a bucket is blocked until a time, it is not allowed at any time
before, unless it is cleared or a failure of it is recorded after the end of its window. -/
theorem not_allowed_until (limiter : LoginRateLimiter) {before after : List (Int × Call)} {bucket : String}
    {until_utc now : Int} {username client_key : String} {row : LimitRow}
    (hordered : ((before ++ after).map (·.1) ++ [now]).Pairwise (· ≤ ·))
    (hrow : run limiter (fun _ => none) before bucket = some row) (hblocked : row.blocked_until_utc = some until_utc)
    (hclear : ∀ call ∈ after, ¬Clears limiter bucket call.2)
    (htimely : Timely limiter bucket until_utc (run limiter (fun _ => none) before) after)
    (hbucket : bucket ∈ (limiter.buckets username client_key).map (·.1)) (hnow : now < until_utc) :
    (limiter.allowed (run limiter (fun _ => none) (before ++ after)) username client_key now).2 = false := by
  have hcalls : ∀ call ∈ before ++ after, call.1 ≤ now := fun call hcall =>
    (List.pairwise_append.mp hordered).2.2 _ (List.mem_map_of_mem hcall) _ List.mem_cons_self
  have htimes := (List.pairwise_append.mp hordered).1
  rw [List.map_append, List.pairwise_append] at htimes
  obtain ⟨hbefore, hafter, hacross⟩ := htimes
  -- what is between the first call and the last one before `after`
  have hstart : ∃ start, Bounded limiter (run limiter (fun _ => none) before) start ∧
      (start :: after.map (·.1)).Pairwise (· ≤ ·) := by
    cases before with
    | nil => cases hrow
    | cons first before =>
        obtain ⟨last, hlast, hmax⟩ : ∃ last ∈ (first :: before).map (·.1), ∀ call ∈ first :: before, call.1 ≤ last := by
          refine ⟨((first :: before).map (·.1)).getLast (by simp), List.getLast_mem _, fun call hcall => ?_⟩
          exact hbefore.rel_getLast_of_rel_getLast_getLast (List.mem_map_of_mem hcall) le_rfl
        have hempty : Bounded limiter (fun _ => none) first.1 := nofun
        refine ⟨last, bounded_run hempty ?_ hmax (hmax _ List.mem_cons_self),
          List.pairwise_cons.mpr ⟨fun time htime => hacross _ hlast _ htime, hafter⟩⟩
        exact List.pairwise_cons.mpr ⟨fun time htime => (List.mem_cons.mp htime).elim (fun h => h ▸ le_rfl)
          (fun h => (List.pairwise_cons.mp hbefore).1 time h), hbefore⟩
  obtain ⟨start, hbounded, hrest⟩ := hstart
  have hkept : BlockedUntil (run limiter (fun _ => none) before) bucket until_utc :=
    ⟨row, hrow, until_utc, hblocked, le_rfl⟩
  have hlast : ∀ call ∈ after, call.1 < until_utc := fun call hcall =>
    (hcalls call (List.mem_append_right _ hcall)).trans_lt hnow
  rw [run, List.foldl_append]
  exact not_allowed_of_blocked (blocked_run hbounded hkept hrest hlast hclear htimely) hnow hbucket

/-- A limiter with the defaults. -/
def plain : LoginRateLimiter where
  sha256 := id
  valid := by decide

/-- Five failures at these times. -/
def failuresAt (times : List Int) : List (Int × Call) := times.map fun time => (time, .record_failure "alice" "c")

theorem not_allowed_until_five :
    (plain.allowed (run plain (fun _ => none) (failuresAt [0, 0, 0, 0, 5] ++ failuresAt [9])) "alice" "c" 100).2 = false := by
  have hblocked := @not_allowed_until plain (failuresAt [0, 0, 0, 0, 5]) (failuresAt [9]) "client:c" 900000005 100 "alice"
    "c" ⟨5, 0, some 900000005, 5⟩
  refine hblocked (by decide) (by decide +kernel) rfl (by simp [failuresAt, Clears]) ⟨fun _ most _ => .inr ?_, trivial⟩ (by decide +kernel)
    (by decide)
  decide +kernel

/-- A failure at the end of the window ends the block that is still to last. -/
theorem allowed_before_end :
    ∃ row, run plain (fun _ => none) (failuresAt [0, 0, 0, 0, 899000000]) "client:c" = some row ∧
      row.blocked_until_utc = some 1799000000 ∧
      (plain.allowed (run plain (fun _ => none) (failuresAt [0, 0, 0, 0, 899000000] ++ failuresAt [900000000])) "alice" "c"
        900000001).2 = true :=
  ⟨⟨5, 0, some 1799000000, 899000000⟩, by decide +kernel⟩

end Runs

end LoginLimits

end ThreatHunting
