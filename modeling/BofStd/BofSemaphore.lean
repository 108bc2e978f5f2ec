import BofStd.Basic
import BofStd.Lib.CondVar

/-!
# `BOF_SEMAPHORE` shared by several threads

`Bof_CreateSemaphore`, and `Bof_SignalSemaphore` and `Bof_WaitForSemaphore` on a semaphore that exists as calls under
its mutex. The counter is one less than the number of permits, and it starts at its maximum. In every run of any threads
there are never more permits out than the semaphore was created with, a signal is refused exactly if all of them are
in, a wait is refused only when its time is over, the counter stays an `int32_t`, and no wake-up is lost
(`semaphore_concurrent`).
-/

namespace BofStd

open CondVar Machine

/-- `BOF_SEMAPHORE` -/
structure BofSemaphore where
  Cpt_S32 : Int
  Max_S32 : Int

namespace BofSemaphore

variable {τ : Type*}

/-- `Bof_CreateSemaphore` on a structure that is no semaphore yet. -/
def createSemaphore (initialCount : Int) : Except BofErr BofSemaphore :=
  if initialCount > 0 then .ok ⟨initialCount - 1, initialCount - 1⟩ else .error .einval

/-- The calls. -/
inductive Call where
  | signalSemaphore
  | waitForSemaphore (timeoutInMs : Nat)
  deriving DecidableEq

/-- The calls under the mutex. -/
def body (x : BofSemaphore) : Call → Option (Done BofSemaphore Unit BofErr)
  | .signalSemaphore =>
    if x.Cpt_S32 < x.Max_S32 then
      some { state := { x with Cpt_S32 := x.Cpt_S32 + 1 }, result := .noError, inside := some (.one ()) }
    else some { state := x, result := .tooBig }
  | .waitForSemaphore _ =>
    if x.Cpt_S32 ≥ 0 then some { state := { x with Cpt_S32 := x.Cpt_S32 - 1 }, result := .noError } else none

/-- The calls of the semaphore; a wait always has a timeout, also of 0. -/
def calls : CondVar BofSemaphore Call Unit BofErr where
  cv
    | .signalSemaphore => none
    | .waitForSemaphore _ => some ()
  body := body
  timeout
    | .signalSemaphore => none
    | .waitForSemaphore _ => some .etimedout

/-- The permits that a log has given back. -/
def signals (log : List (Call × BofErr)) : Nat := log.count (.signalSemaphore, .noError)

/-- The permits that a log has handed out. -/
def waits (log : List (Call × BofErr)) : Nat :=
  log.countP fun e =>
    match e with
    | (.waitForSemaphore _, .noError) => true
    | _ => false

/-! ## The bookkeeping of the sections -/

/-- The counter is within its bounds. -/
def Within (x : BofSemaphore) : Prop := -1 ≤ x.Cpt_S32 ∧ x.Cpt_S32 ≤ x.Max_S32

/-- As many wake-ups as there are permits. -/
def Enough (x : BofSemaphore) (n : Nat) : Prop := x.Cpt_S32 + 1 ≤ n

/-- What a section can do. -/
theorem body_cases {x : BofSemaphore} {k : Call} {d : Done BofSemaphore Unit BofErr} (h : calls.body x k = some d) :
    (k = .signalSemaphore ∧ x.Cpt_S32 < x.Max_S32 ∧
        d = ⟨{ x with Cpt_S32 := x.Cpt_S32 + 1 }, .noError, some (.one ()), none⟩) ∨
      (k = .signalSemaphore ∧ x.Max_S32 ≤ x.Cpt_S32 ∧ d = ⟨x, .tooBig, none, none⟩) ∨
      (∃ t, k = .waitForSemaphore t ∧ 0 ≤ x.Cpt_S32 ∧
        d = ⟨{ x with Cpt_S32 := x.Cpt_S32 - 1 }, .noError, none, none⟩) := by
  cases k with
  | signalSemaphore =>
    simp only [calls, body] at h
    split at h
    · next hlt => exact .inl ⟨rfl, hlt, (Option.some.inj h).symm⟩
    · next hge => exact .inr (.inl ⟨rfl, not_lt.mp hge, (Option.some.inj h).symm⟩)
  | waitForSemaphore t =>
    simp only [calls, body] at h
    split at h
    · next hge => exact .inr (.inr ⟨t, rfl, hge, (Option.some.inj h).symm⟩)
    · simp at h

/-- A signal makes good for the permit that it gives back. -/
theorem lawful : Lawful calls Within (fun x _ n => x.Enough n) where
  keeps := by
    intro x k d h hd
    obtain ⟨hlow, hhigh⟩ := h
    obtain ⟨-, hlt, rfl⟩ | ⟨-, -, rfl⟩ | ⟨t, -, hge, rfl⟩ := body_cases hd
    · exact ⟨by dsimp only; omega, by dsimp only; omega⟩
    · exact ⟨hlow, hhigh⟩
    · exact ⟨by dsimp only; omega, by dsimp only; omega⟩
  waits := by
    intro x k hb
    cases k with
    | signalSemaphore =>
      simp only [calls, body] at hb
      split at hb <;> simp at hb
    | waitForSemaphore t => simp [calls]
  mono := by
    intro x c m n h hmn
    simp only [Enough] at h ⊢
    omega
  fails := by
    intro x k c h hc
    cases k with
    | signalSemaphore => simp [calls] at hc
    | waitForSemaphore t =>
      simp only [calls, body, Enough, ite_eq_right_iff, reduceCtorEq, imp_false]
      omega
  pays := by
    intro x k d c n h hd henough
    right; right
    obtain ⟨rfl, -, rfl⟩ | ⟨rfl, -, rfl⟩ | ⟨t, rfl, -, rfl⟩ := body_cases hd
    · simp [calls, Enough, gain] at henough ⊢
      omega
    · simpa [calls, Enough, gain] using henough
    · simp [calls, Enough, gain] at henough ⊢
      omega

/-- A sequence of sections accounts for every permit. -/
theorem log_permits {x x' : BofSemaphore} {log : List (Call × BofErr)} (h : Log calls x log x') :
    x'.Cpt_S32 + waits log = x.Cpt_S32 + signals log ∧ x'.Max_S32 = x.Max_S32 := by
  induction h with
  | nil => simp [waits, signals]
  | done hd _ ih =>
    obtain ⟨rfl, -, rfl⟩ | ⟨rfl, -, rfl⟩ | ⟨t, rfl, -, rfl⟩ := body_cases hd
    · simp [waits, signals] at ih ⊢
      omega
    · simpa [waits, signals] using ih
    · simp [waits, signals] at ih ⊢
      omega
  | @timeout _ _ k _ _ _ hr _ ih =>
    cases k with
    | signalSemaphore => simp [calls] at hr
    | waitForSemaphore t =>
      cases hr
      simpa [waits, signals] using ih

/-- A signal of a sequence of sections is refused exactly if all the permits are in. -/
theorem log_refused {x x' : BofSemaphore} {log before after : List (Call × BofErr)} {r : BofErr} (hx : x.Within)
    (h : Log calls x log x') (hlog : log = before ++ (.signalSemaphore, r) :: after) :
    r = .tooBig ∧ x.Max_S32 + waits before = x.Cpt_S32 + signals before ∨
      r = .noError ∧ x.Cpt_S32 + signals before < x.Max_S32 + waits before := by
  obtain ⟨q, hq, ⟨d, hd, rfl⟩ | ⟨-, hr⟩⟩ := h.entry hlog
  · obtain ⟨hlow, hhigh⟩ := hq.inv (fun _ _ _ h hd => lawful.keeps h hd) hx
    obtain ⟨hpermits, hmax⟩ := log_permits hq
    obtain ⟨-, hlt, rfl⟩ | ⟨-, hge, rfl⟩ | ⟨t, hk, -⟩ := body_cases hd
    · exact .inr ⟨rfl, by omega⟩
    · exact .inl ⟨rfl, by omega⟩
    · simp at hk
  · simp [calls] at hr

/-- The next step of a wait: it gets a permit, or there is none and its time is over. -/
theorem step_wait [DecidableEq τ] [Fintype τ] {s : System τ BofSemaphore Call Unit} {i : τ × Act τ Call} {t : Nat}
    {r : BofErr} (h : (step calls s i).2 = some (.waitForSemaphore t, r)) :
    r = .noError ∧ 0 ≤ s.state.Cpt_S32 ∨
      r = .etimedout ∧ s.state.Cpt_S32 < 0 ∧ s.pcs i.1 = .expired (.waitForSemaphore t) := by
  obtain ⟨d, hd, rfl⟩ | ⟨hnone, hr, hpc⟩ := step_eq_some h
  · obtain ⟨hk, -⟩ | ⟨hk, -⟩ | ⟨t', -, hge, rfl⟩ := body_cases hd
    · exact nomatch hk
    · exact nomatch hk
    · exact .inl ⟨rfl, hge⟩
  · refine .inr ⟨(Option.some.inj hr).symm, ?_, hpc⟩
    simp only [calls, body, ite_eq_right_iff, reduceCtorEq, imp_false] at hnone
    omega

/-- Every run of any threads on a semaphore that was created with `initialCount` permits: those that are out are at most
`initialCount` and the counter says how many are in, a signal is refused exactly if none is out, a wait ends with a
permit that is there, or it is refused if there is none and its time is over, and a wait is only blocked although there
is a permit while a wake-up for it is under way. -/
theorem semaphore_concurrent [DecidableEq τ] [Fintype τ] {initialCount : Int} {x : BofSemaphore}
    (hx : createSemaphore initialCount = .ok x) (is : List (τ × Act τ Call)) :
    let s := (run (step calls) (start x) is).1
    let log := log calls (start x) is
    signals log ≤ waits log ∧ waits log ≤ signals log + initialCount ∧
      s.state.Cpt_S32 + 1 + waits log = initialCount + signals log ∧
      (∀ before r after, log = before ++ (.signalSemaphore, r) :: after →
        r = .tooBig ∧ waits before = signals before ∨ r = .noError ∧ signals before < waits before) ∧
      (∀ i t r, (step calls s i).2 = some (.waitForSemaphore t, r) →
        r = .noError ∧ 0 ≤ s.state.Cpt_S32 ∨
          r = .etimedout ∧ s.state.Cpt_S32 < 0 ∧ s.pcs i.1 = .expired (.waitForSemaphore t)) ∧
      NoLostWakeUp calls s := by
  intro s log
  have hnew : x = ⟨initialCount - 1, initialCount - 1⟩ ∧ 0 < initialCount := by
    simp only [createSemaphore] at hx
    split at hx
    · next hpos => exact ⟨(Except.ok.inj hx).symm, hpos⟩
    · simp at hx
  obtain ⟨rfl, hpos⟩ := hnew
  have hlog : Log calls ⟨initialCount - 1, initialCount - 1⟩ log s.state :=
    log_run (start (⟨initialCount - 1, initialCount - 1⟩ : BofSemaphore)) is
  have hwithin : Within ⟨initialCount - 1, initialCount - 1⟩ := ⟨by dsimp only; omega, le_rfl⟩
  obtain ⟨hlow, hhigh⟩ := hlog.inv (fun _ _ _ h hd => lawful.keeps h hd) hwithin
  obtain ⟨hpermits, hmax⟩ := log_permits hlog
  dsimp only at hpermits hmax
  refine ⟨by omega, by omega, by omega, ?_, fun i t r h => step_wait h, noLostWakeUp lawful hwithin is⟩
  intro before r after hbefore
  obtain ⟨hr, hcount⟩ | ⟨hr, hcount⟩ := log_refused hwithin hlog hbefore
  · dsimp only at hcount
    exact .inl ⟨hr, by omega⟩
  · dsimp only at hcount
    exact .inr ⟨hr, by omega⟩

/-- Two threads on a semaphore with two permits: one has got a permit and the other one waits for its turn. -/
theorem semaphore_concurrent_two :
    signals (log calls (start ⟨1, 1⟩) [((0 : Fin 2), .call (.waitForSemaphore 5)), (0, .enter 0),
      (1, .call (.waitForSemaphore 5))]) ≤
      waits (log calls (start ⟨1, 1⟩) [((0 : Fin 2), .call (.waitForSemaphore 5)), (0, .enter 0),
        (1, .call (.waitForSemaphore 5))]) :=
  (semaphore_concurrent (rfl : createSemaphore 2 = .ok ⟨1, 1⟩) _).1

end BofSemaphore

end BofStd
