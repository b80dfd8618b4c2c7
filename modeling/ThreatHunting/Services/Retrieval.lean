import ThreatHunting.Services.Lawful

/-!
# ThreatHunting.Services.Retrieval

Result retrieval over a connector that pages exactly: the search `job_id` has one fixed list of
rows, page `p` of size `s` holds its rows from `p * s` on, and a count reported with the end of
the search is the length of the list. Pages may still fail, and the deadline or a cancellation may
fall between any two of them.

What `execute_query` then returns is a prefix of the list within the limits the query runs
under, its bytes are those of the prefix, and it is the whole list unless it says that it was cut
short. The storage counters of a hunt stay within the limits per hunt over any sequence of
queries.
-/

namespace ThreatHunting

open Store Op
open Spl (QueryProposal QueryValidationResult SPLPolicy)

/-! ### What is retrieved -/

/-- The connector's results are exact. -/
def ExactResults (server : String → List Row) (_ : List Event) : Event → Prop
  | .answered (.fetch_results job_id page limit _) (.ok rows) =>
      rows = ((server job_id).drop (page * limit)).take limit
  | .answered (.status job_id) (.ok status) =>
      SplunkStatus.is_terminal status = (true, false) →
        ∀ n ∈ SplunkStatus.reportedCount status, n = (server job_id).length
  | _ => True

/-- The bytes of the canonical JSON array of rows. -/
def rowBytes (rows : List Row) : Option Nat := Json.canonicalSize (.array (rows.map .object))

/-- What has been retrieved is a prefix of the rows within the limits, with its bytes counted. -/
structure Fetched (rows : List Row) (limits : QueryLimits) (r : Retrieval) : Prop where
  initial : r.rows <+: rows
  row_limit : r.rows.length ≤ limits.row_limit
  bytes : rowBytes r.rows = some r.result_bytes
  byte_limit : r.result_bytes ≤ limits.byte_limit

namespace Fetched

variable {rows : List Row} {limits : QueryLimits} {r r' : Retrieval}

theorem empty (h : 2 ≤ limits.byte_limit) : Fetched rows limits .empty :=
  ⟨List.nil_prefix, Nat.zero_le _, Json.canonicalSize_nil, h⟩

theorem congr (h : Fetched rows limits r) (hr : r'.rows = r.rows) (hb : r'.result_bytes = r.result_bytes) :
    Fetched rows limits r' := by
  obtain ⟨h₁, h₂, h₃, h₄⟩ := h
  exact ⟨hr ▸ h₁, hr ▸ h₂, by rw [hr, hb, h₃], hb ▸ h₄⟩

/-- A prefix as long as the list is the list. -/
theorem all_of_length (h : Fetched rows limits r) (hl : rows.length ≤ r.rows.length) : r.rows = rows :=
  h.initial.eq_of_length_le hl

/-- Retrieval that has reached the reported count has all rows. -/
theorem of_count {available : Option Nat} (h : Fetched rows limits r) (hcount : ∀ n ∈ available, n = rows.length)
    (hall : available.any (· ≤ r.rows.length) = true) : r.rows = rows := by
  obtain ⟨n, hn, hle⟩ := (Option.any_eq_true _ _).mp hall
  refine h.all_of_length ?_
  rw [← hcount n hn]
  simpa using hle

/-- One more row of the list. -/
theorem concat {row : Row} {text : List Char} (h : Fetched rows limits r) (hrow : r.rows ++ [row] <+: rows)
    (hlt : r.rows.length < limits.row_limit) (ht : (Json.object row).canonical = some text)
    (hb : r.result_bytes + (Json.utf8Length text + if r.rows.isEmpty then 0 else 1) ≤ limits.byte_limit) :
    Fetched rows limits { r with
      rows := r.rows ++ [row]
      result_bytes := r.result_bytes + (Json.utf8Length text + if r.rows.isEmpty then 0 else 1) } := by
  refine ⟨hrow, ?_, ?_, hb⟩
  · rw [List.length_append]
    exact hlt
  · have hadd := Json.canonicalSize_concat (j := .object row) h.bytes ht
    simpa [rowBytes] using hadd

end Fetched

/-- Rows of one page are taken from the front, up to a limit. -/
theorem retainRows_fetched {rows : List Row} {limits : QueryLimits} :
    ∀ {page : List Row} {r r' : Retrieval}, Fetched rows limits r → r.rows ++ page <+: rows →
      r.stop_reason = none → retainRows limits page r = .ok r' →
      Fetched rows limits r' ∧ r'.result_pages = r.result_pages ∧
        (r'.stop_reason = none → r'.rows.length = min limits.row_limit (r.rows.length + page.length))
  | [], r, r', hf, _, _, h => by
      cases h
      refine ⟨hf, rfl, fun _ => ?_⟩
      have := hf.row_limit
      simp only [List.length_nil]
      omega
  | row :: page, r, r', hf, hpage, hstop, h => by
      by_cases hfull : limits.row_limit ≤ r.rows.length
      · rw [retainRows, if_pos hfull] at h
        cases h
        refine ⟨hf, rfl, fun _ => ?_⟩
        have hle := hf.row_limit
        omega
      · rw [retainRows, if_neg hfull] at h
        cases ht : (Json.object row).canonical with
        | none =>
            rw [ht] at h
            cases h
        | some text =>
            rw [ht] at h
            by_cases hbig : limits.byte_limit <
                r.result_bytes + (Json.utf8Length text + if r.rows.isEmpty then 0 else 1)
            · obtain rfl := Except.ok.inj ((if_pos hbig).symm.trans h)
              exact ⟨hf.congr rfl rfl, rfl, by simp⟩
            · have h := (if_neg hbig).symm.trans h
              have hrow : r.rows ++ [row] <+: rows :=
                ((List.prefix_append_right_inj r.rows).mpr (by simp)).trans hpage
              have hnext := hf.concat hrow (by omega) ht (by omega)
              obtain ⟨hf', hp', hlen⟩ := retainRows_fetched hnext (by simpa using hpage) hstop h
              refine ⟨hf', hp', fun hs => ?_⟩
              rw [hlen hs]
              simp only [List.length_append, List.length_cons, List.length_nil]
              omega

/-- Retrieval has come to the end of a page. -/
structure AtPage (rows : List Row) (limits : QueryLimits) (page_size : Nat) (r : Retrieval) : Prop
    extends Fetched rows limits r where
  going : r.stop_reason = none
  position : r.rows.length = min limits.row_limit (r.result_pages * page_size)

/-- Retrieval has ended: all rows are there, or the row limit is reached, or it says why not. -/
structure Retrieved (rows : List Row) (limits : QueryLimits) (r : Retrieval) : Prop
    extends Fetched rows limits r where
  complete : r.stop_reason = none → r.rows = rows ∨ limits.row_limit ≤ r.rows.length

namespace ProductionHuntExecutor

variable {server : String → List Row} {job_id : String} {limits : QueryLimits} {page_size : Nat}
  {m : BudgetCounters} {h : History}

/-- A page that arrives is the page that was asked for. -/
theorem safe_fetchPage (deadline : Instant) (page max_bytes : Nat) :
    (fetchPage job_id deadline page page_size max_bytes).Safe (.free (ExactResults server)) m h
      (fun rows _ _ => rows = ((server job_id).drop (page * page_size)).take page_size) fun _ _ _ => True := by
  refine .bind (safe_now_free fun h before => ?_)
  refine .bind (safe_raiseIf (fun _ => trivial) fun _ => ?_)
  refine .bind (safe_now_free fun h _ => ?_)
  refine .bind (Proc.safe_ask_free fun h answer ha => ?_)
  refine .bind (Proc.safe_ofExcept (fun rows hrows => ?_) fun _ _ => trivial)
  refine .bind (safe_now_free fun h after => ?_)
  refine .bind (safe_raiseIf (fun _ => trivial) fun _ => ?_)
  subst hrows
  exact Proc.safe_pure ha

/-- One page, or the reason why there is none. -/
theorem safe_page (deadline : Instant) (r : Retrieval) :
    (Proc.handle (do
        let page_rows ← fetchPage job_id deadline r.result_pages page_size (limits.byte_limit - r.result_bytes + 2)
        pure (page_rows, r) : Op (List Row × Retrieval))
      (pageFailed limits r)).Safe (.free (ExactResults server)) m h
      (fun x _ _ => (x.2 = r ∧ x.1 = ((server job_id).drop (r.result_pages * page_size)).take page_size) ∨
        ∃ reason, x.2 = { r with stop_reason := some reason }) fun _ _ _ => True := by
  refine Proc.Safe.handle (F := fun _ _ _ => True) ?_ fun e m h _ => ?_
  · refine Proc.Safe.seq (safe_fetchPage deadline _ _) fun rows m h hrows => ?_
    exact Proc.safe_pure (.inl ⟨rfl, hrows⟩)
  · unfold pageFailed
    split
    next => exact Proc.safe_pure (.inr ⟨_, rfl⟩)
    next =>
      refine Proc.safe_ite (fun _ => Proc.safe_throw trivial) fun _ => ?_
      exact .bind (Proc.safe_modify (Proc.safe_pure (.inr ⟨_, rfl⟩)))
    next => exact Proc.safe_throw trivial

/-- A page of the rows that continues a prefix of them. -/
theorem prefix_page {rows : List Row} {r : Retrieval} {n : Nat} (hr : r.rows <+: rows)
    (hn : r.rows.length = n) (size : Nat) : r.rows ++ (rows.drop n).take size <+: rows := by
  obtain ⟨rest, rfl⟩ := hr
  rw [← hn, List.drop_left]
  exact (List.prefix_append_right_inj r.rows).mpr (List.take_prefix size rest)

/-- The paging loop retrieves a prefix, and ends without a reason only at the end of the rows or
at the row limit. -/
theorem safe_fetchPages (deadline : Instant) {available : Option Nat} (hsize : 0 < page_size)
    (hcount : ∀ n ∈ available, n = (server job_id).length) (turns : Nat) {r : Retrieval}
    (hr : AtPage (server job_id) limits page_size r) (hturns : limits.row_limit ≤ r.rows.length + turns) :
    (fetchPages job_id deadline limits page_size available turns r).Safe (.free (ExactResults server)) m h
      (fun r' _ _ => Retrieved (server job_id) limits r') fun _ _ _ => True := by
  -- by induction on the turns left; each turn that goes on has retained a row
  induction turns generalizing m h r with
  | zero => exact Proc.safe_pure ⟨hr.toFetched, fun _ => .inr hturns⟩
  | succ turns ih =>
      refine Proc.safe_ite (fun hdone => ?_) fun hmore => ?_
      · refine Proc.safe_pure ⟨hr.toFetched, fun _ => ?_⟩
        rcases hdone with hfull | hall
        · exact .inr hfull
        · exact .inl (hr.toFetched.of_count hcount hall)
      · have hlt : r.rows.length < limits.row_limit := by omega
        have hpos : r.rows.length = r.result_pages * page_size := by
          have hmin := hr.position
          omega
        refine Proc.Safe.seq (safe_page deadline r) fun x m h hx => ?_
        obtain ⟨page_rows, r₁⟩ := x
        rcases hx with ⟨hr₁, hpage⟩ | ⟨reason, hr₁⟩
        · obtain rfl : r₁ = r := hr₁
          have hpage : page_rows = ((server job_id).drop (r₁.result_pages * page_size)).take page_size := hpage
          refine Proc.safe_ite (fun hsome => ?_) fun _ => ?_
          · rw [hr.going] at hsome
            cases hsome
          · refine .bind (Proc.safe_ofExcept (fun r₂ hr₂ => ?_) fun _ _ => trivial)
            have hinitial := prefix_page hr.initial hpos page_size
            rw [← hpage] at hinitial
            have hf₀ : Fetched (server job_id) limits { r₁ with result_pages := r₁.result_pages + 1 } :=
              hr.toFetched.congr rfl rfl
            obtain ⟨hf, hpages, hlen⟩ := retainRows_fetched hf₀ hinitial hr.going hr₂
            refine Proc.safe_ite (fun hstop => ?_) fun hgoing => ?_
            · refine Proc.safe_pure ⟨hf, fun hnone => ?_⟩
              simp [hnone] at hstop
            · have hgoing : r₂.stop_reason = none := by simpa using hgoing
              have hlen : r₂.rows.length = min limits.row_limit (r₁.rows.length + page_rows.length) := hlen hgoing
              have hpagelen : page_rows.length = min page_size ((server job_id).length - r₁.rows.length) := by
                rw [hpage, List.length_take, List.length_drop, hpos]
              refine Proc.safe_ite (fun hshort => ?_) fun hlong => ?_
              · -- a short page is the last one
                have hcomplete : r₂.stop_reason = none → r₂.rows = server job_id ∨
                    limits.row_limit ≤ r₂.rows.length := by
                  intro _
                  by_cases hfull : limits.row_limit ≤ r₂.rows.length
                  · exact .inr hfull
                  · refine .inl (hf.all_of_length ?_)
                    have hle := hr.initial.length_le
                    show (server job_id).length ≤ r₂.rows.length
                    omega
                refine Proc.safe_ite (fun _ => ?_) fun _ => ?_
                · exact Proc.safe_pure ⟨hf.congr rfl rfl, by simp⟩
                · exact Proc.safe_pure ⟨hf, hcomplete⟩
              · have hfullpage : page_rows.length = page_size := by omega
                refine ih ⟨hf, hgoing, ?_⟩ ?_
                · rw [hlen, hpages, hfullpage, hpos, Nat.add_mul, Nat.one_mul]
                · rw [hlen, hfullpage]
                  omega
        · obtain rfl : r₁ = { r with stop_reason := some reason } := hr₁
          refine Proc.safe_ite (fun _ => ?_) fun hnone => ?_
          · exact Proc.safe_pure ⟨hr.toFetched.congr rfl rfl, by simp⟩
          · simp at hnone

/-- A search that ends reports the length of its rows, if it reports a count. -/
theorem safe_awaitDone (executor : ProductionHuntExecutor) (deadline : Instant) (fuel : Nat) :
    (executor.awaitDone job_id deadline fuel).Safe (.free (ExactResults server)) m h
      (fun status _ _ => ∀ n ∈ SplunkStatus.reportedCount status, n = (server job_id).length)
      fun _ _ _ => True := by
  induction fuel generalizing m h with
  | zero => exact Proc.safe_halt
  | succ fuel ih =>
      refine Proc.Safe.seq (Proc.safe_free executor.is_cancelled m h) fun cancelled m h _ => ?_
      refine .bind (safe_raiseIf (fun _ => trivial) fun _ => ?_)
      refine .bind (safe_now_free fun h now => ?_)
      refine .bind (safe_raiseIf (fun _ => trivial) fun _ => ?_)
      refine .bind (Proc.safe_ask_free fun h answer ha => ?_)
      refine .bind (Proc.safe_ofExcept (fun status hstatus => ?_) fun _ _ => trivial)
      subst hstatus
      split
      next => exact Proc.safe_throw trivial
      next hdone => exact Proc.safe_pure (ha hdone)
      next => exact ih

/-- The rows of a finished retrieval, all of them unless it says that it was cut short. -/
structure Finished (rows : List Row) (limits : QueryLimits) (r : Retrieval) : Prop
    extends Fetched rows limits r where
  complete : r.stop_reason = none → r.rows = rows

theorem finished_finish {rows : List Row} {r : Retrieval} {available : Option Nat}
    (hr : Retrieved rows limits r) (hcount : ∀ n ∈ available, n = rows.length) :
    Finished rows limits (Retrieval.finish limits available r) := by
  unfold Retrieval.finish
  split
  next => exact ⟨hr.toFetched.congr rfl rfl, by simp⟩
  next hopen =>
    refine ⟨hr.toFetched, fun hnone => ?_⟩
    rcases hr.complete hnone with hall | hfull
    · exact hall
    · -- the row limit is reached, so the reported count is too
      have hcounted : available.any (· ≤ r.rows.length) = true := by
        cases available with
        | none => simp [hnone, hfull] at hopen
        | some n => simpa [hnone, hfull] using hopen
      exact hr.toFetched.of_count hcount hcounted

theorem safe_retrieve (executor : ProductionHuntExecutor) (deadline : Instant) (fuel : Nat)
    (hrows : 0 < limits.row_limit) (hbytes : 2 ≤ limits.byte_limit) :
    (executor.retrieve job_id deadline limits fuel).Safe (.free (ExactResults server)) m h
      (fun x _ _ => Finished (server job_id) limits x.2) fun _ _ _ => True := by
  refine Proc.Safe.seq (safe_awaitDone executor deadline fuel) fun status m h hcount => ?_
  refine .bind (safe_now_free fun h now => ?_)
  refine .bind (safe_raiseIf (fun _ => trivial) fun _ => ?_)
  have hempty : AtPage (server job_id) limits (min 500 limits.row_limit) .empty :=
    ⟨.empty hbytes, rfl, by simp [Retrieval.empty]⟩
  refine Proc.Safe.seq (safe_fetchPages deadline (by omega) hcount _ hempty (by simp [Retrieval.empty]))
    fun r m h hr => ?_
  exact Proc.safe_pure (finished_finish hr hcount)

/-! ### The storage of a hunt -/

/-- The rows and bytes a hunt has stored, as its counters have them. -/
def storage (c : BudgetCounters) : Nat × Nat := (c.cached_rows, c.cached_bytes)

/-- The procedure leaves the storage counters as they are, here at `c`. -/
abbrev KeepsStorage {α : Type} (server : String → List Row) (c : Nat × Nat) (p : Op α) : Prop :=
  p.Keeps (.free (ExactResults server)) fun m _ => storage m = c

/-- The executor's callbacks leave the storage counters alone. -/
structure LeavesStorage (executor : ProductionHuntExecutor) : Prop where
  is_cancelled : ∀ server c, KeepsStorage server c executor.is_cancelled
  on_submitted : ∀ server c query_id sid proposal,
    KeepsStorage server c (executor.on_submitted query_id sid proposal)
  on_rejected : ∀ server c proposal query_id v,
    KeepsStorage server c (executor.on_rejected proposal query_id v)

section

variable {executor : ProductionHuntExecutor} {c : Nat × Nat}

theorem keeps_record_failed : KeepsStorage server c (Proc.modify (·.record_failed_splunk_query)) :=
  .modify fun m _ hm => by simpa [storage] using hm

theorem keeps_raiseIf {b : Prop} [Decidable b] {e : Fault} : KeepsStorage server c (raiseIf b e) :=
  .ite (fun _ => .throw e) fun _ => .pure ()

theorem keeps_abort {α : Type} (job_id : Option String) (e : Fault) :
    KeepsStorage server c (abort job_id e : Op α) := by
  have rest : KeepsStorage server c (do Proc.modify (·.record_failed_splunk_query); raise e : Op α) :=
    .bind keeps_record_failed fun _ => .throw e
  cases job_id with
  | none => exact rest
  | some job_id => exact .bind (.bind (.ask_free _) fun _ => .pure ()) fun _ => rest

theorem keeps_awaitDone (hx : executor.LeavesStorage) (job_id : String) (deadline : Instant) (fuel : Nat) :
    KeepsStorage server c (executor.awaitDone job_id deadline fuel) := by
  induction fuel with
  | zero => exact .halt
  | succ fuel ih =>
      refine .bind (hx.is_cancelled server c) fun _ => .bind keeps_raiseIf fun _ => .bind (.ask_free _) fun _ =>
        .bind keeps_raiseIf fun _ => .bind (.ask_free _) fun _ => .bind (.ofExcept _) fun status => ?_
      split
      next => exact .throw _
      next => exact .pure _
      next => exact ih

theorem keeps_fetchPage (job_id : String) (deadline : Instant) (page page_size max_bytes : Nat) :
    KeepsStorage server c (fetchPage job_id deadline page page_size max_bytes) :=
  .bind (.ask_free _) fun _ => .bind keeps_raiseIf fun _ => .bind (.ask_free _) fun _ =>
    .bind (.ask_free _) fun _ => .bind (.ofExcept _) fun _ => .bind (.ask_free _) fun _ =>
    .bind keeps_raiseIf fun _ => .pure _

theorem keeps_pageFailed (limits : QueryLimits) (r : Retrieval) (e : Fault) :
    KeepsStorage server c (pageFailed limits r e) := by
  unfold pageFailed
  split
  next => exact .pure _
  next => exact .ite (fun _ => .throw _) fun _ => .bind keeps_record_failed fun _ => .pure _
  next => exact .throw _

theorem keeps_fetchPages (job_id : String) (deadline : Instant) (limits : QueryLimits) (page_size : Nat)
    (available : Option Nat) (turns : Nat) (r : Retrieval) :
    KeepsStorage server c (fetchPages job_id deadline limits page_size available turns r) := by
  induction turns generalizing r with
  | zero => exact .pure r
  | succ turns ih =>
      have page : KeepsStorage server c (Proc.handle (do
          let page_rows ← fetchPage job_id deadline r.result_pages page_size
            (limits.byte_limit - r.result_bytes + 2)
          pure (page_rows, r)) (pageFailed limits r)) :=
        .handle (.bind (keeps_fetchPage _ _ _ _ _) fun _ => .pure _) (keeps_pageFailed limits r)
      refine .ite (fun _ => .pure r) fun _ => .bind page fun x => ?_
      obtain ⟨page_rows, r₁⟩ := x
      refine .ite (fun _ => .pure _) fun _ => .bind (.ofExcept _) fun r₂ => ?_
      refine .ite (fun _ => .pure _) fun _ => .ite (fun _ => ?_) fun _ => ih r₂
      exact .ite (fun _ => .pure _) fun _ => .pure _

theorem keeps_retrieve (hx : executor.LeavesStorage) (job_id : String) (deadline : Instant)
    (limits : QueryLimits) (fuel : Nat) :
    KeepsStorage server c (executor.retrieve job_id deadline limits fuel) :=
  .bind (keeps_awaitDone hx job_id deadline fuel) fun _ => .bind (.ask_free _) fun _ =>
    .bind keeps_raiseIf fun _ => .bind (keeps_fetchPages _ _ _ _ _ _ _) fun _ => .pure _

theorem keeps_job (hx : executor.LeavesStorage) (proposal : QueryProposal) (query_id : Uuid)
    (v : QueryValidationResult) (deadline : Instant) (existing : Option String) :
    KeepsStorage server c (executor.job proposal query_id v deadline existing) := by
  cases existing with
  | some job_id => exact .pure job_id
  | none =>
      refine .bind (.ask_free _) fun _ => .bind keeps_raiseIf fun _ => .bind .get fun _ =>
        .bind keeps_raiseIf fun _ => .bind (.modify fun _ _ hm => hm) fun _ => ?_
      have submit : KeepsStorage server c ((submit proposal query_id v).handle (abort none)) :=
        .handle (.bind (.ask_free _) fun _ => .ofExcept _) (keeps_abort none)
      refine .bind submit fun job_id => ?_
      exact .bind (.handle (hx.on_submitted server c query_id job_id proposal) (keeps_abort _)) fun _ => .pure _

theorem keeps_query_deadline (executor : ProductionHuntExecutor) (submitted : Option Instant) :
    KeepsStorage server c (executor.query_deadline submitted) := by
  cases submitted with
  | some submitted => exact .bind (.pure _) fun _ => .pure _
  | none => exact .bind (.ask_free _) fun _ => .pure _

end

/-! ### Queries -/

/-- The result of a query is an exact prefix of its search's rows, within the limits the query
ran under. -/
structure ExactPrefix (server : String → List Row) (limits : QueryLimits) (x : QueryExecution) : Prop where
  initial : x.rows <+: server x.splunk_job_id
  row_limit : x.rows.length ≤ limits.row_limit
  bytes : rowBytes x.rows = some x.result_bytes
  byte_limit : x.result_bytes ≤ limits.byte_limit
  complete : x.truncated = false → x.rows = server x.splunk_job_id

/-- What a query returns, and what it adds to the storage of the hunt. -/
def Returned (executor : ProductionHuntExecutor) (server : String → List Row) (proposal : QueryProposal)
    (m : BudgetCounters) (x : QueryExecution) (m' : BudgetCounters) : Prop :=
  ∃ v, executor.validate proposal = .ok v ∧ ExactPrefix server (executor.queryLimits proposal v m) x ∧
    m'.cached_rows = m.cached_rows + x.rows.length ∧ m'.cached_bytes = m.cached_bytes + x.result_bytes

/-- `abort` raises. -/
theorem safe_abort {α : Type} (job_id : Option String) (e : Fault) :
    (abort job_id e : Op α).Safe (.free (ExactResults server)) m h (fun _ _ _ => False)
      fun _ m' _ => storage m' = storage m := by
  have rest : ∀ h, (do Proc.modify (·.record_failed_splunk_query); raise e : Op α).Safe
      (.free (ExactResults server)) m h (fun _ _ _ => False) fun _ m' _ => storage m' = storage m :=
    fun h => .bind (Proc.safe_modify (Proc.safe_throw (by simp [storage])))
  cases job_id with
  | none => exact rest h
  | some job_id => exact .bind (.bind (Proc.safe_ask_free fun h _ _ => Proc.safe_pure (rest h)))

/-- A retrieval that fails ends the query and leaves the storage alone. -/
theorem safe_retrieve_or_abort {executor : ProductionHuntExecutor} (hx : executor.LeavesStorage)
    (deadline : Instant) (fuel : Nat) (hrows : 0 < limits.row_limit) (hbytes : 2 ≤ limits.byte_limit) :
    ((executor.retrieve job_id deadline limits fuel).handle (abort (some job_id))).Safe
      (.free (ExactResults server)) m h
      (fun x m' _ => storage m' = storage m ∧ Finished (server job_id) limits x.2)
      fun _ m' _ => storage m' = storage m := by
  have unchanged : KeepsStorage server (storage m) (executor.retrieve job_id deadline limits fuel) :=
    keeps_retrieve hx job_id deadline limits fuel
  have retrieve := (unchanged m h rfl).and (safe_retrieve executor deadline fuel hrows hbytes)
  refine Proc.Safe.handle retrieve fun e m₁ h₁ ⟨hm₁, _⟩ => ?_
  exact (safe_abort (some job_id) e).mono (fun _ _ _ h => h.elim) fun _ _ _ hm₂ => hm₂.trans hm₁

/-- A query returns an exact prefix, and only a returned result is added to the storage. -/
theorem safe_execute_query {executor : ProductionHuntExecutor} (hx : executor.LeavesStorage) (fuel : Nat)
    (proposal : QueryProposal) (query_id : Uuid) (existing : Option String) (submitted : Option Instant) :
    (executor.execute_query fuel proposal query_id existing submitted).Safe (.free (ExactResults server)) m h
      (fun x m' _ => executor.Returned server proposal m x m') fun _ m' _ => storage m' = storage m := by
  refine .bind (Proc.safe_ask_free fun h validation_id _ => ?_)
  refine .bind (Proc.safe_ofExcept (fun v hv => ?_) fun _ _ => rfl)
  refine Proc.safe_ite (fun _ => ?_) fun _ => ?_
  · refine Proc.Safe.seq (hx.on_rejected server _ proposal validation_id v m _ rfl) fun _ m₁ h hm₁ => ?_
    exact Proc.safe_throw hm₁
  · refine .bind (Proc.safe_get ?_)
    refine .bind (safe_raiseIf (fun _ => rfl) fun hlimits => ?_)
    refine Proc.Safe.seq (keeps_query_deadline executor submitted m _ rfl) fun deadline m₁ h hm₁ => ?_
    refine Proc.Safe.seq (keeps_job hx proposal query_id v deadline existing m₁ h hm₁) fun job_id m₂ h hm₂ => ?_
    refine Proc.Safe.seq ((safe_retrieve_or_abort hx deadline fuel (by omega) (by omega)).mono
      (fun _ _ _ hr => hr) fun _ _ _ hm₃ => hm₃.trans hm₂) fun x m₃ h hr => ?_
    obtain ⟨available, r⟩ := x
    obtain ⟨hm₃, hr⟩ := hr
    refine .bind (Proc.safe_modify (Proc.safe_pure ⟨v, hv, ?_, ?_, ?_⟩))
    · exact ⟨hr.initial, hr.row_limit, hr.bytes, hr.byte_limit, fun hwhole => hr.complete (by simpa using hwhole)⟩
    · have hrows := congrArg Prod.fst (hm₃.trans hm₂)
      exact congrArg (· + r.rows.length) hrows
    · have hbytes := congrArg Prod.snd (hm₃.trans hm₂)
      exact congrArg (· + r.result_bytes) hbytes

/-- A query to execute. -/
structure Request where
  proposal : QueryProposal
  query_id : Uuid
  existing_job_id : Option String
  submitted_at_utc : Option Instant

/-- Execute a requested query. -/
def Request.run (executor : ProductionHuntExecutor) (fuel : Nat) (q : Request) : Op QueryExecution :=
  executor.execute_query fuel q.proposal q.query_id q.existing_job_id q.submitted_at_utc

/-- Execute queries one after the other; a query that fails has no result. -/
def runAll (executor : ProductionHuntExecutor) (fuel : Nat) : List Request → Op (List (Option QueryExecution)) :=
  Proc.collect fun q => Proc.handle (do pure (some (← q.run executor fuel))) fun _ => pure none

/-- The storage of a hunt is within the limits per hunt. -/
def StorageWithin (limits : BudgetLimits) (c : BudgetCounters) : Prop :=
  c.cached_rows ≤ limits.max_cached_rows_per_hunt ∧ c.cached_bytes ≤ limits.max_cached_bytes_per_hunt

/-- A query keeps the storage within the limits per hunt. -/
theorem StorageWithin.returned {executor : ProductionHuntExecutor} {proposal : QueryProposal}
    {m' : BudgetCounters} {x : QueryExecution} (hm : StorageWithin executor.limits m)
    (hx : executor.Returned server proposal m x m') : StorageWithin executor.limits m' := by
  obtain ⟨v, -, hexact, hrows, hbytes⟩ := hx
  have hr := hexact.row_limit
  have hb := hexact.byte_limit
  simp only [queryLimits] at hr hb
  obtain ⟨hm₁, hm₂⟩ := hm
  exact ⟨by omega, by omega⟩

theorem StorageWithin.congr {limits : BudgetLimits} {m' : BudgetCounters} (hm : StorageWithin limits m)
    (h : storage m' = storage m) : StorageWithin limits m' := by
  obtain ⟨hrows, hbytes⟩ := Prod.mk.inj h
  rwa [StorageWithin, hrows, hbytes]

/-- Over any queries, whatever becomes of each, the storage stays within the limits per hunt. -/
theorem safe_runAll {executor : ProductionHuntExecutor} (hx : executor.LeavesStorage) (fuel : Nat)
    (hm : StorageWithin executor.limits m) (qs : List Request) :
    (runAll executor fuel qs).Safe (.free (ExactResults server)) m h
      (fun _ m' _ => StorageWithin executor.limits m') fun _ _ _ => False := by
  refine Proc.safe_collect (fun _ m' _ => StorageWithin executor.limits m') qs [] m h hm fun q _ _ m h hm => ?_
  refine Proc.Safe.handle (F := fun _ m' _ => StorageWithin executor.limits m') ?_ fun e m h hm => Proc.safe_pure hm
  refine Proc.Safe.seq ((safe_execute_query hx fuel q.proposal q.query_id _ _).mono
    (fun _ _ _ hr => hm.returned hr) fun _ _ _ hs => hm.congr hs) fun x m h hm => ?_
  exact Proc.safe_pure hm

end ProductionHuntExecutor

namespace WorkflowService

open ProductionHuntExecutor

/-! ### The worker's executor -/

section

variable {w : Worker} {admits : List Event → Event → Prop} {P : BudgetCounters → Prop}

theorem keeps_require_lease : Proc.Keeps (.free admits) (fun m _ => P m) (w.require_lease) := by
  refine .bind (.ask_free _) fun now => .bind (.commit_free _) fun x => ?_
  obtain ⟨db, accepted⟩ := x
  exact .ite (fun _ => .pure ()) fun _ => .bind (.ofExcept _) fun _ => .pure ()

theorem keeps_row : Proc.Keeps (.free admits) (fun m _ => P m) (w.row) := by
  refine .bind .read_free fun db => ?_
  unfold ofOption
  split
  next => exact .pure _
  next => exact .throw _

theorem keeps_checkpoint (completed : Option QueryExecution) (state : HuntState) (results : Results) :
    Proc.Keeps (.free admits) (fun m _ => P m) (w.checkpoint completed state results) := by
  refine .bind (.ask_free _) fun now => .bind (.commit_free _) fun x => ?_
  obtain ⟨db, accepted⟩ := x
  exact .ite (fun _ => .throw _) fun _ => .pure ()

theorem keeps_is_cancelled : Proc.Keeps (.free admits) (fun m _ => P m) (w.is_cancelled) := by
  refine .bind (.ask_free _) fun signal => .ite (fun _ => .pure _) fun _ => ?_
  refine .handle (.bind keeps_require_lease fun _ => .bind keeps_row fun _ => .pure _) fun e => ?_
  split
  next => exact .pure _
  next => exact .pure _
  next => exact .throw _

theorem keeps_on_submitted (query_id : Uuid) (sid : String) (proposal : QueryProposal) :
    Proc.Keeps (.free admits) (fun m _ => P m) (w.on_submitted query_id sid proposal) := by
  refine .bind (.bind keeps_is_cancelled fun _ => .ite (fun _ => .throw _) fun _ => .pure ()) fun _ => ?_
  exact .bind keeps_require_lease fun _ => .bind keeps_row fun _ => .bind (.ask_free _) fun _ => .bind .get fun _ =>
    .bind (.ofExcept _) fun _ => keeps_checkpoint _ _ _

theorem keeps_persist_policy_rejections (rejected : List PolicyRejection) (state : HuntState) :
    Proc.Keeps (.free admits) (fun m _ => P m) (w.persist_policy_rejections rejected state) :=
  .ite (fun _ => .pure ()) fun _ => .bind keeps_row fun _ => keeps_checkpoint _ _ _

/-- The callbacks of a worker's executor use none of the counters of the storage. -/
theorem leavesStorage_executor (policy : SPLPolicy) (open_question_ids : List String) (d : Worker.Deadlines) :
    (w.executor policy open_question_ids d).LeavesStorage where
  is_cancelled _ _ := keeps_is_cancelled
  on_submitted _ _ := keeps_on_submitted
  on_rejected _ _ proposal query_id v :=
    keeps_persist_policy_rejections (w := w) [⟨some query_id, proposal, v.reason_codes⟩] .running

end

/-- **Bounded exact retrieval.** Over a connector that pages exactly, a query of a hunt returns
an exact prefix of its search's rows within the limits it ran under, all of them unless it
reports otherwise, and any sequence of queries keeps the storage of the hunt within its limits. -/
theorem results_exact (w : Worker) (policy : SPLPolicy) (open_question_ids : List String)
    (d : Worker.Deadlines) (server : String → List Row) (fuel : Nat) {m : BudgetCounters}
    (hm : StorageWithin w.service.budget_limits m) (h : History) :
    (∀ q : Request, (q.run (w.executor policy open_question_ids d) fuel).Safe (.free (ExactResults server)) m h
      (fun x m' _ => (w.executor policy open_question_ids d).Returned server q.proposal m x m')
      fun _ m' _ => storage m' = storage m) ∧
    ∀ qs : List Request, (runAll (w.executor policy open_question_ids d) fuel qs).Safe
      (.free (ExactResults server)) m h (fun _ m' _ => StorageWithin w.service.budget_limits m')
      fun _ _ _ => False :=
  have hx := leavesStorage_executor (w := w) policy open_question_ids d
  ⟨fun q => safe_execute_query hx fuel q.proposal q.query_id _ _, fun qs => safe_runAll hx fuel hm qs⟩

/-- An environment whose searches have ended with the rows of `server`. -/
def serverAnswers (server : String → List Row) : ∀ q : Ask, q.Answer
  | .status job_id => .ok [("isDone", .bool true), ("resultCount", .int (server job_id).length)]
  | .fetch_results job_id page limit _ => .ok (((server job_id).drop (page * limit)).take limit)
  | q => exampleAnswers 1000000 "u" q

/-- It pages exactly. -/
theorem exactResults_serverAnswers (server : String → List Row) (past : List Event) (q : Ask) :
    ExactResults server past (.answered q (serverAnswers server q)) := by
  cases q with
  | fetch_results job_id page limit max_bytes => rfl
  | status job_id => exact fun _ n hn => (Option.some.inj hn).symm
  | now | uuid4 | lease_signal | discover | prompt | complete | submit | cancel_search => trivial

/-- A worker under a lease of the job of `claimedDatabase`. -/
def exampleWorker : Worker where
  helpers := exampleHelpers
  investigation := exampleInvestigation
  service := exampleService
  lease := exampleLease "w1" 1 0

/-- A submitted search for at most two rows. -/
def twoRows : Request where
  proposal := {
    question_id := "q1".toList, purpose := "purpose".toList, spl := "search index=main sourcetype=a".toList
    earliest_utc := 0, latest_utc := 1, indexes := ["main".toList], sourcetypes := ["a".toList]
    requested_fields := [], result_mode := .targeted, max_results := 2 }
  query_id := "id"
  existing_job_id := some "sid"
  submitted_at_utc := some 0

/-- The policy of the plan of `exampleRow`. -/
def examplePolicy : SPLPolicy :=
  exampleWorker.policy examplePlan ⟨"p", 1, "h", "s", "c", [], [], 0⟩ exampleSnapshot.payload

/-- The executor of that worker under this policy. -/
def exampleExecutor : ProductionHuntExecutor :=
  exampleWorker.executor examplePolicy ["q1"] (exampleWorker.deadlines 0)

/-- A server on which every search has three rows. -/
def threeRows (_ : String) : List Row := [[("a", .int 1)], [("a", .int 2)], [("a", .int 3)]]

/-- The search after `n` steps on that server. -/
def twoRowsSteps (n : Nat) : Program signature (Except Fault QueryExecution × BudgetCounters) × History :=
  (twoRows.run exampleExecutor 3 {}).steps (serverAnswers threeRows) n
    ⟨claimedDatabase (exampleExecution .running {}) 0, []⟩

/-- The number of rows a finished query returned. -/
def returnedRows : Program signature (Except Fault QueryExecution × BudgetCounters) → Option Nat
  | .pure (.ok x, _) => some x.rows.length
  | _ => none

/-- Of three rows the search retrieves an exact prefix of two. -/
theorem two_of_three_rows :
    ∃ x m', exampleExecutor.Returned threeRows twoRows.proposal {} x m' ∧ x.rows.length = 2 := by
  have hwithin : StorageWithin exampleWorker.service.budget_limits {} := ⟨Nat.zero_le _, Nat.zero_le _⟩
  have hsafe := (results_exact exampleWorker examplePolicy ["q1"] (exampleWorker.deadlines 0) threeRows 3
    hwithin ⟨claimedDatabase (exampleExecution .running {}) 0, []⟩).1 twoRows
  have hsteps : ∀ n, Program.Safe (.free (ExactResults threeRows)) (twoRowsSteps n).1 _ (twoRowsSteps n).2 :=
    fun n => hsafe.steps (exactResults_serverAnswers threeRows) (fun _ _ _ _ => trivial) n trivial
  have hend := hsteps 30
  have hrows : returnedRows (twoRowsSteps 30).1 = some 2 := by decide +kernel
  generalize twoRowsSteps 30 = c at hend hrows
  obtain ⟨p, h⟩ := c
  unfold returnedRows at hrows
  split at hrows
  next x m' hp =>
    obtain rfl : p = _ := hp
    exact ⟨x, m', hend, Option.some.inj hrows⟩
  next => cases hrows

end WorkflowService

end ThreatHunting
