import BofStd.Lib.CondVar

/-!
# `BofThreadPool`

`Enqueue`, the loop of the workers up to the call of a job, and the first half of the destructor, as calls under the
mutex of the pool. In every run of any threads the accepted jobs are handed out in order, each one once, a worker only
leaves its loop after the shutdown and when every accepted job has been handed out, and no wake-up is lost
(`pool_concurrent`).
-/

namespace BofStd

open CondVar Machine

/-- `BofThreadPool` -/
structure BofThreadPool (α : Type*) where
  mJobCollection : List α
  mDoShutdown_B : Bool
  MaxQueuedRequests_U32 : Nat

namespace BofThreadPool

variable {α τ : Type*}

/-- The pool as it is constructed. -/
def create (maxQueuedRequests : Nat) : BofThreadPool α := ⟨[], false, maxQueuedRequests⟩

/-- The calls. -/
inductive Call (α : Type*) where
  | enqueue (job : α)
  /-- One turn of the loop of `OnProcessing`. -/
  | onProcessing
  /-- `~BofThreadPool` before it joins the workers. -/
  | shutdown

/-- What they answer. -/
inductive Reply (α : Type*) where
  | enqueued (rts : Bool)
  | job (job : α)
  /-- `break` -/
  | exit
  | stopping

/-- The place that `Enqueue` looks for. -/
def hasRoom (p : BofThreadPool α) : Bool :=
  p.MaxQueuedRequests_U32 = 0 ∨ p.mJobCollection.length < p.MaxQueuedRequests_U32

/-- The calls under the mutex. `Enqueue` notifies also if it has refused the job. -/
def body (p : BofThreadPool α) : Call α → Option (Done (BofThreadPool α) Unit (Reply α))
  | .enqueue job =>
    if p.hasRoom then
      some { state := { p with mJobCollection := p.mJobCollection ++ [job] }, result := .enqueued true,
             after := some (.one ()) }
    else some { state := p, result := .enqueued false, after := some (.one ()) }
  | .onProcessing =>
    match p.mJobCollection, p.mDoShutdown_B with
    | [], false => none
    | [], true => some { state := p, result := .exit }
    | job :: rest, _ => some { state := { p with mJobCollection := rest }, result := .job job }
  | .shutdown => some { state := { p with mDoShutdown_B := true }, result := .stopping, after := some (.all ()) }

/-- The calls of the pool; `mDoShedulCv` is the only condition variable. -/
def calls : CondVar (BofThreadPool α) (Call α) Unit (Reply α) where
  cv
    | .onProcessing => some ()
    | _ => none
  body := body
  timeout _ := none

/-- The jobs that a log has accepted, in order. -/
def accepted (log : List (Call α × Reply α)) : List α :=
  log.filterMap fun e =>
    match e with
    | (.enqueue job, .enqueued true) => some job
    | _ => none

/-- The jobs that a log has handed out, in order. -/
def handedOut (log : List (Call α × Reply α)) : List α :=
  log.filterMap fun e =>
    match e.2 with
    | .job job => some job
    | _ => none

/-! ## The bookkeeping of the sections -/

/-- A bounded pool is within its bound. -/
def Within (p : BofThreadPool α) : Prop :=
  p.MaxQueuedRequests_U32 ≠ 0 → p.mJobCollection.length ≤ p.MaxQueuedRequests_U32

/-- As many wake-ups as there are jobs; after the shutdown no number is enough. -/
def Enough (p : BofThreadPool α) (n : Nat) : Prop := p.mDoShutdown_B = false ∧ p.mJobCollection.length ≤ n

/-- What a section can do. -/
theorem body_cases {p : BofThreadPool α} {k : Call α} {d : Done (BofThreadPool α) Unit (Reply α)}
    (h : body p k = some d) :
    (∃ job, k = .enqueue job ∧ p.hasRoom = true ∧
        d = ⟨{ p with mJobCollection := p.mJobCollection ++ [job] }, .enqueued true, none, some (.one ())⟩) ∨
      (∃ job, k = .enqueue job ∧ d = ⟨p, .enqueued false, none, some (.one ())⟩) ∨
      (k = .onProcessing ∧ p.mJobCollection = [] ∧ p.mDoShutdown_B = true ∧ d = ⟨p, .exit, none, none⟩) ∨
      (∃ job rest, k = .onProcessing ∧ p.mJobCollection = job :: rest ∧
        d = ⟨{ p with mJobCollection := rest }, .job job, none, none⟩) ∨
      (k = .shutdown ∧ d = ⟨{ p with mDoShutdown_B := true }, .stopping, none, some (.all ())⟩) := by
  cases k with
  | enqueue job =>
    simp only [body] at h
    split at h
    · next hroom => exact .inl ⟨job, rfl, hroom, (Option.some.inj h).symm⟩
    · exact .inr (.inl ⟨job, rfl, (Option.some.inj h).symm⟩)
  | onProcessing =>
    simp only [body] at h
    split at h
    · simp at h
    · next hjobs hdown => exact .inr (.inr (.inl ⟨rfl, hjobs, hdown, (Option.some.inj h).symm⟩))
    · next _ job rest hjobs => exact .inr (.inr (.inr (.inl ⟨job, rest, rfl, hjobs, (Option.some.inj h).symm⟩)))
  | shutdown => exact .inr (.inr (.inr (.inr ⟨rfl, (Option.some.inj h).symm⟩)))

/-- `Enqueue` makes good for the job that it adds, and the shutdown wakes up everybody. -/
theorem lawful : Lawful calls (Within (α := α)) (fun p _ n => p.Enough n) where
  keeps := by
    intro p k d h hd
    obtain ⟨job, rfl, hroom, rfl⟩ | ⟨job, rfl, rfl⟩ | ⟨rfl, -, -, rfl⟩ | ⟨job, rest, rfl, hjobs, rfl⟩ | ⟨rfl, rfl⟩ :=
      body_cases hd
    · intro hmax
      simp only [hasRoom, hmax, decide_eq_true_eq, false_or] at hroom
      simpa [Nat.succ_le_iff] using hroom
    · exact h
    · exact h
    · intro hmax
      have hle := h hmax
      simp only [hjobs, List.length_cons] at hle
      exact Nat.le_of_succ_le hle
    · exact h
  waits := by
    intro p k hb
    cases k with
    | enqueue job =>
      simp only [calls, body] at hb
      split at hb <;> simp at hb
    | onProcessing => simp [calls]
    | shutdown => simp [calls, body] at hb
  mono := by
    intro p c m n h hmn
    exact ⟨h.1, h.2.trans hmn⟩
  fails := by
    intro p k c h hc
    cases k with
    | onProcessing =>
      simp only [calls, body, Enough]
      split <;> simp_all
    | enqueue job | shutdown => simp [calls] at hc
  pays := by
    intro p k d c n h hd henough
    obtain ⟨hdown, hle⟩ := henough
    obtain ⟨job, rfl, -, rfl⟩ | ⟨job, rfl, rfl⟩ | ⟨rfl, -, hdown', rfl⟩ | ⟨job, rest, rfl, hjobs, rfl⟩ | ⟨rfl, rfl⟩ :=
      body_cases hd
    · refine .inr (.inr ⟨hdown, ?_⟩)
      simpa [calls, gain] using hle
    · refine .inr (.inr ⟨hdown, hle.trans ?_⟩)
      simp [calls, gain]
    · rw [hdown] at hdown'
      simp at hdown'
    · refine .inr (.inr ⟨hdown, ?_⟩)
      simpa [calls, gain, hjobs] using hle
    · exact .inr (.inl rfl)

/-- The jobs of a sequence of sections: none is lost, doubled or overtaken. -/
theorem log_fifo {p p' : BofThreadPool α} {log : List (Call α × Reply α)} (h : Log calls p log p') :
    p.mJobCollection ++ accepted log = handedOut log ++ p'.mJobCollection ∧
      p'.MaxQueuedRequests_U32 = p.MaxQueuedRequests_U32 := by
  induction h with
  | nil => simp [accepted, handedOut]
  | done hd _ ih =>
    obtain ⟨job, rfl, -, rfl⟩ | ⟨job, rfl, rfl⟩ | ⟨rfl, hjobs, -, rfl⟩ | ⟨job, rest, rfl, hjobs, rfl⟩ | ⟨rfl, rfl⟩ :=
      body_cases hd
    · simpa [accepted, handedOut] using ih
    · simpa [accepted, handedOut] using ih
    · simpa [accepted, handedOut] using ih
    · simpa [accepted, handedOut, hjobs] using ih
    · simpa [accepted, handedOut] using ih
  | timeout _ hr _ _ => simp [calls] at hr

/-- The sections before a worker leaves its loop have emptied the pool and shut it down. -/
theorem log_exit {p p' : BofThreadPool α} {log before after : List (Call α × Reply α)} {k : Call α}
    (h : Log calls p log p') (hlog : log = before ++ (k, .exit) :: after) :
    ∃ q, Log calls p before q ∧ q.mJobCollection = [] ∧ q.mDoShutdown_B = true := by
  obtain ⟨q, hq, ⟨d, hd, hresult⟩ | ⟨-, hr⟩⟩ := h.entry hlog
  · refine ⟨q, hq, ?_⟩
    obtain ⟨job, -, -, rfl⟩ | ⟨job, -, rfl⟩ | ⟨-, hjobs, hdown, rfl⟩ | ⟨job, rest, -, -, rfl⟩ | ⟨-, rfl⟩ :=
      body_cases hd
    · simp at hresult
    · simp at hresult
    · exact ⟨hjobs, hdown⟩
    · simp at hresult
    · simp at hresult
  · simp [calls] at hr

/-- The pool is shut down by a call only. -/
theorem log_shutdown {p p' : BofThreadPool α} {log : List (Call α × Reply α)} (h : Log calls p log p')
    (hp' : p'.mDoShutdown_B = true) : p.mDoShutdown_B = true ∨ (.shutdown, .stopping) ∈ log := by
  induction h with
  | nil => exact .inl hp'
  | done hd _ ih =>
    obtain hdown | hmem := ih hp'
    · obtain ⟨job, -, -, rfl⟩ | ⟨job, -, rfl⟩ | ⟨-, -, -, rfl⟩ | ⟨job, rest, -, -, rfl⟩ | ⟨rfl, rfl⟩ := body_cases hd
      · exact .inl hdown
      · exact .inl hdown
      · exact .inl hdown
      · exact .inl hdown
      · exact .inr (List.mem_cons_self ..)
    · exact .inr (List.mem_cons_of_mem _ hmem)
  | timeout _ hr _ _ => simp [calls] at hr

/-- Every run of any threads: the jobs that were handed out and those in the pool are the accepted ones in order, the
pool is within its bound, a worker leaves its loop only after the shutdown and when all the jobs accepted before have
been handed out, and it is only blocked although there is a job or a shutdown while a wake-up for it is under way. -/
theorem pool_concurrent [DecidableEq τ] [Fintype τ] (maxQueuedRequests : Nat) (is : List (τ × Act τ (Call α))) :
    let s := (run (step calls) (start (create maxQueuedRequests)) is).1
    let log := log calls (start (create maxQueuedRequests)) is
    accepted log = handedOut log ++ s.state.mJobCollection ∧
      (maxQueuedRequests ≠ 0 → s.state.mJobCollection.length ≤ maxQueuedRequests) ∧
      (∀ before k after, log = before ++ (k, .exit) :: after →
        (.shutdown, .stopping) ∈ before ∧ accepted before = handedOut before) ∧
      NoLostWakeUp calls s := by
  intro s log
  have hlog : Log calls (create maxQueuedRequests) log s.state := log_run (start (create maxQueuedRequests)) is
  have hwithin : Within (create maxQueuedRequests : BofThreadPool α) := fun _ => Nat.zero_le _
  obtain ⟨hfifo, hmax⟩ := log_fifo hlog
  have hgood : s.state.Within := hlog.inv (fun _ _ _ h hd => lawful.keeps h hd) hwithin
  refine ⟨hfifo, ?_, ?_, noLostWakeUp lawful hwithin is⟩
  · intro hne
    have hle := hgood (by rw [hmax]; exact hne)
    rw [hmax] at hle
    exact hle
  · intro before k after hbefore
    obtain ⟨q, hq, hjobs, hdown⟩ := log_exit hlog hbefore
    obtain hfalse | hmem := log_shutdown hq hdown
    · simp [create] at hfalse
    · refine ⟨hmem, ?_⟩
      have hall := (log_fifo hq).1
      rw [hjobs, List.append_nil] at hall
      exact hall

end BofThreadPool

end BofStd
