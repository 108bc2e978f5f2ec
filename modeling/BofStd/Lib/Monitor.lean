import BofStd.Lib.Run
import Mathlib.Logic.Function.Basic

/-!
# Monitors: a mutex, a condition variable and what they guard

Threads call operations on a shared state. A call holds the mutex while it reads or writes the state; one that
waits tests its predicate, and if that fails it releases the mutex and blocks in one step. A blocked thread tests
again after a notification or a spurious wake-up. No wake-up is lost (`NoLostWakeUp`) as long as every call that
makes the predicate of a blocked thread true wakes this thread up (`noLostWakeUp_iff`).
-/

open Machine

/-- Whom a call wakes up. -/
inductive Monitor.Notify where
  | nobody
  | one
  | all
  deriving DecidableEq

/-- The operations on a state of type `σ`: calls `κ` that do not wait and waits `ω`. -/
structure Monitor (σ κ ω : Type*) where
  /-- The test that a call makes before it locks the mutex. -/
  enters : σ → κ ⊕ ω → Bool
  /-- What a call does that does not wait. -/
  write : σ → κ → σ × Monitor.Notify
  /-- The predicate of a wait, which may change the state; `none` if its effect is not defined. -/
  test : σ → ω → Option (Bool × σ)

namespace Monitor

variable {σ κ ω τ : Type*}

/-- Where a thread stands. -/
inductive Pc (κ ω : Type*) where
  | idle
  | entering (c : κ ⊕ ω)
  | inside (c : κ ⊕ ω)
  | leaving
  | blocked (w : ω)
  | notified (w : ω)

/-- The shared state, `none` after an effect that is not defined, the thread that holds the mutex and where the
threads stand. -/
structure System (τ σ κ ω : Type*) where
  state : Option σ
  owner : Option τ
  pcs : τ → Pc κ ω

/-- What a thread does; a call that wakes one thread up picks it. -/
inductive Act (τ κ ω : Type*) where
  | call (c : κ ⊕ ω)
  | lock
  | body (picked : τ)
  | unlock
  | wakeUp

/-- The notification reaches the thread. -/
def Notify.Reaches (n : Notify) (picked t : τ) : Prop := n = .all ∨ n = .one ∧ t = picked

variable [DecidableEq τ]

instance (n : Notify) (picked t : τ) : Decidable (Notify.Reaches n picked t) :=
  inferInstanceAs (Decidable (_ ∨ _))

/-- The blocked threads that a notification reaches are to test again. -/
def notify (n : Notify) (picked : τ) (pcs : τ → Pc κ ω) (t : τ) : Pc κ ω :=
  match pcs t with
  | .blocked w => if n.Reaches picked t then .notified w else .blocked w
  | pc => pc

namespace System

/-- A thread goes on. -/
def goto (s : System τ σ κ ω) (t : τ) (pc : Pc κ ω) : System τ σ κ ω :=
  { s with pcs := Function.update s.pcs t pc }

/-- A thread locks the mutex, if it is free. -/
def lock (s : System τ σ κ ω) (t : τ) (c : κ ⊕ ω) : System τ σ κ ω :=
  if s.owner = none then { s.goto t (.inside c) with owner := some t } else s

/-- A thread does what its call is to do under the mutex. -/
def body (M : Monitor σ κ ω) (s : System τ σ κ ω) (x : σ) (t picked : τ) : κ ⊕ ω → System τ σ κ ω
  | .inl c =>
    { s with
      state := some (M.write x c).1
      pcs := Function.update (notify (M.write x c).2 picked s.pcs) t .leaving }
  | .inr w =>
    match M.test x w with
    | none => { s with state := none }
    | some (true, x) => { s.goto t .leaving with state := some x }
    | some (false, x) => { s.goto t (.blocked w) with state := some x, owner := none }

/-- What a thread does; what it cannot do has no effect. -/
def act (M : Monitor σ κ ω) (s : System τ σ κ ω) (x : σ) (t : τ) (a : Act τ κ ω) : System τ σ κ ω :=
  match a, s.pcs t with
  | .call c, .idle => if M.enters x c then s.goto t (.entering c) else s
  | .lock, .entering c => s.lock t c
  | .lock, .notified w => s.lock t (.inr w)
  | .body picked, .inside c => s.body M x t picked c
  | .unlock, .leaving => { s.goto t .idle with owner := none }
  | .wakeUp, .blocked w => s.goto t (.notified w)
  | _, _ => s

end System

/-- One step of one thread. -/
def step (M : Monitor σ κ ω) (s : System τ σ κ ω) (i : τ × Act τ κ ω) : System τ σ κ ω × Unit :=
  (match s.state with
    | some x => s.act M x i.1 i.2
    | none => s, ())

/-- All the threads before their first calls. -/
def start (x : σ) : System τ σ κ ω := ⟨some x, none, fun _ => .idle⟩

/-! ## No lost wake-up -/

/-- A predicate that fails changes nothing, and one that holds makes no other predicate true. -/
structure Lawful (M : Monitor σ κ ω) (holds : σ → ω → Prop) : Prop where
  test_false : ∀ {x w}, ¬holds x w → M.test x w = some (false, x)
  test_true : ∀ {x w b x'}, holds x w → M.test x w = some (b, x') → b = true ∧ ∀ u, holds x' u → holds x u

/-- No thread is blocked although its predicate holds. -/
def NoLostWakeUp (holds : σ → ω → Prop) (s : System τ σ κ ω) : Prop :=
  ∃ x, s.state = some x ∧ ∀ t w, s.pcs t = .blocked w → ¬holds x w

/-- A call that does not wait reaches the blocked threads whose predicate it makes true, and the effect of a wait
is defined. -/
def WakesUp (M : Monitor σ κ ω) (holds : σ → ω → Prop) (s : System τ σ κ ω) (i : τ × Act τ κ ω) : Prop :=
  ∀ x, s.state = some x → match i.2, s.pcs i.1 with
    | .body picked, .inside (.inl c) =>
      ∀ t w, s.pcs t = .blocked w → holds (M.write x c).1 w → Notify.Reaches (M.write x c).2 picked t
    | .body _, .inside (.inr w) => M.test x w ≠ none
    | _, _ => True

variable {M : Monitor σ κ ω} {holds : σ → ω → Prop} {s : System τ σ κ ω} {x : σ} {t : τ}

/-- A thread that is blocked after another has gone on, or after it has gone on itself. -/
theorem update_eq_blocked {pcs : τ → Pc κ ω} {pc : Pc κ ω} {u : τ} {w : ω}
    (h : Function.update pcs t pc u = .blocked w) : pcs u = .blocked w ∨ pc = .blocked w := by
  by_cases hu : u = t
  · subst hu
    rw [Function.update_self] at h
    exact .inr h
  · rw [Function.update_of_ne hu] at h
    exact .inl h

theorem notify_eq_blocked {pcs : τ → Pc κ ω} {n : Notify} {picked u : τ} {w : ω} :
    notify n picked pcs u = .blocked w ↔ pcs u = .blocked w ∧ ¬Notify.Reaches n picked u := by
  unfold notify
  cases hpc : pcs u with
  | blocked w' =>
    by_cases hr : Notify.Reaches n picked u
    · simp only [if_pos hr]
      exact iff_of_false nofun fun h => h.2 hr
    · simp only [if_neg hr]
      exact (and_iff_left hr).symm
  | idle | entering c | inside c | leaving | notified w' => exact iff_of_false nofun fun h => nomatch h.1

/-! ### What the steps do to the blocked threads -/

/-- A step that leaves the state alone and does not block. -/
theorem NoLostWakeUp.goto {pc : Pc κ ω} (h : NoLostWakeUp holds s) (hpc : ∀ w, pc ≠ .blocked w) :
    NoLostWakeUp holds (s.goto t pc) := by
  obtain ⟨x, hx, h⟩ := h
  exact ⟨x, hx, fun u w hu => h u w ((update_eq_blocked hu).resolve_right (hpc w))⟩

theorem NoLostWakeUp.lock (h : NoLostWakeUp holds s) (c : κ ⊕ ω) : NoLostWakeUp holds (s.lock t c) := by
  unfold System.lock
  split
  · exact h.goto nofun
  · exact h

/-- A call that does not wait. -/
theorem noLostWakeUp_write {c : κ} {picked : τ} (ht : s.pcs t = .inside (.inl c)) :
    NoLostWakeUp holds (s.body M x t picked (.inl c)) ↔
      ∀ u w, s.pcs u = .blocked w → holds (M.write x c).1 w → Notify.Reaches (M.write x c).2 picked u := by
  constructor
  · rintro ⟨x', hx', h⟩ u w hu hw
    obtain rfl : (M.write x c).1 = x' := Option.some.inj hx'
    by_contra hr
    have hut : u ≠ t := by
      rintro rfl
      exact nomatch hu.symm.trans ht
    have hblocked : (s.body M x t picked (.inl c)).pcs u = .blocked w :=
      (Function.update_of_ne hut _ _).trans (notify_eq_blocked.mpr ⟨hu, hr⟩)
    exact h u w hblocked hw
  · intro h
    refine ⟨_, rfl, fun u w hu hw => ?_⟩
    obtain ⟨hblocked, hr⟩ := notify_eq_blocked.mp ((update_eq_blocked hu).resolve_right nofun)
    exact hr (h u w hblocked hw)

/-- A wait: its thread blocks only if the predicate fails. -/
theorem noLostWakeUp_wait (hM : Lawful M holds) (h : NoLostWakeUp holds s) (hx : s.state = some x) {w : ω}
    {picked : τ} : NoLostWakeUp holds (s.body M x t picked (.inr w)) ↔ M.test x w ≠ none := by
  obtain ⟨y, hy, h⟩ := h
  obtain rfl : y = x := Option.some.inj (hy.symm.trans hx)
  by_cases hw : holds y w
  · cases htest : M.test y w with
    | none =>
      rw [System.body, htest]
      exact iff_of_false (fun ⟨_, hx', _⟩ => nomatch hx') (not_not_intro rfl)
    | some r =>
      obtain ⟨b, x'⟩ := r
      obtain ⟨rfl, hmono⟩ := hM.test_true hw htest
      rw [System.body, htest]
      refine iff_of_true ⟨x', rfl, fun u w' hu hw' => ?_⟩ nofun
      exact h u w' ((update_eq_blocked hu).resolve_right nofun) (hmono w' hw')
  · rw [System.body, hM.test_false hw]
    refine iff_of_true ⟨y, rfl, fun u w' hu => ?_⟩ nofun
    obtain hold | hnew := update_eq_blocked hu
    · exact h u w' hold
    · obtain rfl : w = w' := Pc.blocked.inj hnew
      exact hw

/-- One step loses no wake-up exactly if it wakes up whom it has to. -/
theorem NoLostWakeUp.step_iff (hM : Lawful M holds) (h : NoLostWakeUp holds s) (i : τ × Act τ κ ω) :
    NoLostWakeUp holds (step M s i).1 ↔ WakesUp M holds s i := by
  obtain ⟨t, a⟩ := i
  obtain ⟨x, hx, -⟩ := id h
  have hcond : WakesUp M holds s (t, a) ↔ match a, s.pcs t with
      | .body picked, .inside (.inl c) =>
        ∀ u w, s.pcs u = .blocked w → holds (M.write x c).1 w → Notify.Reaches (M.write x c).2 picked u
      | .body _, .inside (.inr w) => M.test x w ≠ none
      | _, _ => True := by
    refine ⟨fun hc => hc x hx, fun hc y hy => ?_⟩
    obtain rfl : x = y := Option.some.inj (hx.symm.trans hy)
    exact hc
  rw [hcond, step, hx]
  simp only [System.act]
  cases a with
  | call c =>
    cases s.pcs t with
    | idle =>
      refine iff_of_true ?_ trivial
      dsimp only
      split
      · exact h.goto nofun
      · exact h
    | entering _ | inside _ | leaving | blocked _ | notified _ => exact iff_of_true h trivial
  | lock =>
    cases s.pcs t with
    | entering c => exact iff_of_true (h.lock c) trivial
    | notified w => exact iff_of_true (h.lock (.inr w)) trivial
    | idle | inside _ | leaving | blocked _ => exact iff_of_true h trivial
  | body picked =>
    cases hpc : s.pcs t with
    | inside c =>
      cases c with
      | inl c => exact noLostWakeUp_write hpc
      | inr w => exact noLostWakeUp_wait hM h hx
    | idle | entering _ | leaving | blocked _ | notified _ => exact iff_of_true h trivial
  | unlock =>
    cases s.pcs t with
    | leaving => exact iff_of_true (h.goto nofun) trivial
    | idle | entering _ | inside _ | blocked _ | notified _ => exact iff_of_true h trivial
  | wakeUp =>
    cases s.pcs t with
    | blocked w => exact iff_of_true (h.goto nofun) trivial
    | idle | entering _ | inside _ | leaving | notified _ => exact iff_of_true h trivial

/-- What the bodies of the calls keep of the shared state, every step keeps. -/
theorem step_state {P : σ → Prop} (hwrite : ∀ x c, P x → P (M.write x c).1)
    (htest : ∀ x w r, P x → M.test x w = some r → P r.2) (h : ∀ x, s.state = some x → P x) (i : τ × Act τ κ ω) :
    ∀ x, (step M s i).1.state = some x → P x := by
  obtain ⟨t, a⟩ := i
  cases hx : s.state with
  | none =>
    rw [step, hx]
    exact h
  | some x =>
    have hP := h x hx
    rw [step, hx]
    simp only [System.act]
    cases a with
    | call c =>
      cases s.pcs t with
      | idle =>
        dsimp only
        split <;> exact h
      | entering _ | inside _ | leaving | blocked _ | notified _ => exact h
    | lock =>
      cases s.pcs t with
      | entering _ | notified _ =>
        dsimp only
        unfold System.lock
        split <;> exact h
      | idle | inside _ | leaving | blocked _ => exact h
    | body picked =>
      cases s.pcs t with
      | inside c =>
        obtain c | w := c
        · intro y hy
          obtain rfl := Option.some.inj hy
          exact hwrite x c hP
        · dsimp only [System.body]
          split
          · exact nofun
          · next heq =>
            intro y hy
            obtain rfl := Option.some.inj hy
            exact htest x w _ hP heq
          · next heq =>
            intro y hy
            obtain rfl := Option.some.inj hy
            exact htest x w _ hP heq
      | idle | entering _ | leaving | blocked _ | notified _ => exact h
    | unlock | wakeUp => cases s.pcs t <;> exact h

/-- No wake-up is lost in a run exactly if every step wakes up whom it has to. -/
theorem noLostWakeUp_iff (hM : Lawful M holds) (x : σ) (is : List (τ × Act τ κ ω)) :
    (∀ js, js <+: is → NoLostWakeUp holds (run (step M) (start x) js).1) ↔
      Meets (step M) (WakesUp M holds) (start x) is :=
  have hg : Meets (step M) (fun _ _ => True) (start x) is := meets_of_forall (fun _ _ => trivial) _ _
  forall_prefix_iff_meets (fun _ i h _ => h.step_iff hM i) ⟨x, rfl, nofun⟩ hg

end Monitor
