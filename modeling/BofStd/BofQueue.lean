import BofStd.Basic
import BofStd.Lib.CondVar

/-!
# `BofQueue` shared by several threads

`Push` and `Pop` as calls under the mutex of the queue, with its two condition variables. A timeout of 0 waits for ever,
and a queue whose maximal size is 0 grows without bound. In every run of any threads the items come out in the order in
which they went in, each one once, a bounded queue stays within its bound, and no wake-up is lost (`queue_concurrent`).
-/

namespace BofStd

open CondVar Machine

/-- `BofQueue` -/
structure BofQueue (α : Type*) where
  mQueue : List α
  mMaxSize_U32 : Nat

namespace BofQueue

variable {α τ : Type*}

/-- The queue as it is constructed. -/
def create (maxSize : Nat) : BofQueue α := ⟨[], maxSize⟩

/-- The condition variables `mCvNotEmpty` and `mCvNotFull`. -/
inductive Cv where
  | notEmpty
  | notFull
  deriving DecidableEq

/-- The calls. -/
inductive Call (α : Type*) where
  | pop (timeoutInMs : Nat)
  | push (timeoutInMs : Nat) (item : α)

/-- The predicate that `Push` waits for; without a timeout it only looks for the exact maximal size. -/
def hasRoom (q : BofQueue α) (timeoutInMs : Nat) : Bool :=
  if q.mMaxSize_U32 ≠ 0 then
    if timeoutInMs ≠ 0 then q.mQueue.length < q.mMaxSize_U32 else q.mQueue.length ≠ q.mMaxSize_U32
  else true

/-- `Pop` and `Push` under the mutex. `Pop` notifies before it unlocks the mutex, `Push` after it. -/
def body (q : BofQueue α) : Call α → Option (Done (BofQueue α) Cv (BofErr × Option α))
  | .pop _ =>
    match q.mQueue with
    | [] => none
    | item :: rest =>
      some { state := { q with mQueue := rest }, result := (.noError, some item), inside := some (.one .notFull) }
  | .push timeoutInMs item =>
    if q.hasRoom timeoutInMs then
      some { state := { q with mQueue := q.mQueue ++ [item] }, result := (.noError, none),
             after := some (.one .notEmpty) }
    else none

/-- The condition variable of a call. -/
def cv : Call α → Cv
  | .pop _ => .notEmpty
  | .push _ _ => .notFull

/-- The timeout of a call. -/
def timeout : Call α → Nat
  | .pop timeoutInMs | .push timeoutInMs _ => timeoutInMs

/-- The calls of the queue. -/
def calls : CondVar (BofQueue α) (Call α) Cv (BofErr × Option α) where
  cv k := some (cv k)
  body := body
  timeout k := if timeout k ≠ 0 then some (.etimedout, none) else none

/-- The items that the calls of a log have put into the queue, in order. -/
def pushed (log : List (Call α × BofErr × Option α)) : List α :=
  log.filterMap fun e =>
    match e with
    | (.push _ item, .noError, _) => some item
    | _ => none

/-- The items that the calls of a log have got from the queue, in order. -/
def popped (log : List (Call α × BofErr × Option α)) : List α := log.filterMap fun e => e.2.2

/-! ## The bookkeeping of the sections -/

/-- A bounded queue is within its bound. -/
def Within (q : BofQueue α) : Prop := q.mMaxSize_U32 ≠ 0 → q.mQueue.length ≤ q.mMaxSize_U32

/-- As many wake-ups as there are items, or free places. -/
def Enough (q : BofQueue α) (n : Nat) : Cv → Prop
  | .notEmpty => q.mQueue.length ≤ n
  | .notFull => q.mMaxSize_U32 ≠ 0 ∧ q.mMaxSize_U32 ≤ q.mQueue.length + n

theorem Within.hasRoom_eq_false {q : BofQueue α} (h : q.Within) (timeoutInMs : Nat) :
    q.hasRoom timeoutInMs = false ↔ q.Enough 0 .notFull := by
  by_cases hmax : q.mMaxSize_U32 = 0
  · simp [hasRoom, Enough, hmax]
  · have hle := h hmax
    by_cases ht : timeoutInMs = 0
    · simp only [hasRoom, Enough, ht]
      simp
      omega
    · simp [hasRoom, Enough, hmax, ht]

theorem Within.push {q : BofQueue α} (h : q.Within) {timeoutInMs : Nat} (hroom : q.hasRoom timeoutInMs) (item : α) :
    Within { q with mQueue := q.mQueue ++ [item] } := by
  intro hmax
  have hle := h hmax
  have hnot : ¬q.Enough 0 .notFull := by
    rw [← h.hasRoom_eq_false timeoutInMs, hroom]
    simp
  simp only [Enough, not_and, not_le] at hnot
  have hlt := hnot hmax
  simp only [List.length_append, List.length_singleton]
  omega

/-- `Pop` makes good for the place that it frees and `Push` for the item that it adds. -/
theorem lawful : Lawful calls (Within (α := α)) (fun q c n => q.Enough n c) where
  keeps := by
    intro q k d h hd
    cases k with
    | pop t =>
      cases hq : q.mQueue with
      | nil => simp [calls, body, hq] at hd
      | cons item rest =>
        simp only [calls, body, hq, Option.some.injEq] at hd
        subst hd
        intro hmax
        have hle := h hmax
        simp only [hq, List.length_cons] at hle
        exact Nat.le_of_succ_le hle
    | push t item =>
      simp only [calls, body] at hd
      split at hd
      · next hroom =>
        cases hd
        exact h.push hroom item
      · simp at hd
  waits := by
    intro q k _
    simp [calls]
  mono := by
    intro q c m n h hmn
    cases c with
    | notEmpty => exact h.trans hmn
    | notFull => exact ⟨h.1, h.2.trans (Nat.add_le_add_left hmn _)⟩
  fails := by
    intro q k c h hc
    cases k with
    | pop t =>
      cases hc
      cases hq : q.mQueue <;> simp [calls, body, cv, Enough, hq]
    | push t item =>
      cases hc
      have hroom := h.hasRoom_eq_false t
      simpa [calls, body, cv] using hroom
  pays := by
    intro q k d c n h hd henough
    right; right
    cases k with
    | pop t =>
      cases hq : q.mQueue with
      | nil => simp [calls, body, hq] at hd
      | cons item rest =>
        simp only [calls, body, hq, Option.some.injEq] at hd
        subst hd
        cases c <;> simp [calls, cv, Enough, gain, hq] at henough ⊢ <;> omega
    | push t item =>
      simp only [calls, body] at hd
      split at hd
      · cases hd
        cases c <;> simp [calls, cv, Enough, gain] at henough ⊢ <;> omega
      · simp at hd

/-- The items of a sequence of sections: none is lost, doubled or overtaken. -/
theorem log_fifo {q q' : BofQueue α} {log : List (Call α × BofErr × Option α)} (h : Log calls q log q') :
    q.mQueue ++ pushed log = popped log ++ q'.mQueue ∧ q'.mMaxSize_U32 = q.mMaxSize_U32 := by
  induction h with
  | nil => simp [pushed, popped]
  | @done q q' k d log hd _ ih =>
    cases k with
    | pop t =>
      cases hq : q.mQueue with
      | nil => simp [calls, body, hq] at hd
      | cons item rest =>
        simp only [calls, body, hq, Option.some.injEq] at hd
        subst hd
        simpa [pushed, popped] using ih
    | push t item =>
      simp only [calls, body] at hd
      split at hd
      · cases hd
        simpa [pushed, popped] using ih
      · simp at hd
  | @timeout q q' k r log _ hr _ ih =>
    simp only [calls] at hr
    split at hr
    · cases hr
      cases k <;> simpa [pushed, popped] using ih
    · simp at hr

/-- Every run of any threads: what was popped and what is in the queue is what was pushed, in this order, a bounded
queue is within its bound, and a call is only blocked although it could go on while a wake-up for it is under way. -/
theorem queue_concurrent [DecidableEq τ] [Fintype τ] (maxSize : Nat) (is : List (τ × Act τ (Call α))) :
    let s := (run (step calls) (start (create maxSize)) is).1
    let log := log calls (start (create maxSize)) is
    pushed log = popped log ++ s.state.mQueue ∧ (maxSize ≠ 0 → s.state.mQueue.length ≤ maxSize) ∧
      NoLostWakeUp calls s := by
  intro s log
  have hlog : Log calls (create maxSize) log s.state := log_run (start (create maxSize)) is
  have hwithin : Within (create maxSize : BofQueue α) := fun _ => Nat.zero_le _
  obtain ⟨hfifo, hmax⟩ := log_fifo hlog
  have hgood : s.state.Within := hlog.inv (fun _ _ _ h hd => lawful.keeps h hd) hwithin
  refine ⟨hfifo, ?_, noLostWakeUp lawful hwithin is⟩
  intro hne
  have hle := hgood (by rw [hmax]; exact hne)
  rw [hmax] at hle
  exact hle

end BofQueue

end BofStd
