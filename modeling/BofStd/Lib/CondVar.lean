import Mathlib.Data.List.ReduceOption
import BofStd.Lib.Run
import BofStd.Lib.Threads

/-!
# Condition variables whose waiters are woken up one at a time

Threads call operations on a shared state under one mutex. A call that waits tests its predicate, and if that fails
it releases the mutex and blocks on a condition variable in one step; it tests again when it has been notified, when
it wakes up by itself, and for a last time when its time is over. No other thread reaches the state while a thread
holds the mutex, so a critical section is one step. `notify_one` picks one of the blocked threads, if there is one,
and so a wake-up may go to a thread that finds its predicate false again, or come while others are still blocked: it
has to be counted. `Lawful` is the bookkeeping that a section owes, and `noLostWakeUp` what follows for every run: a
thread is only blocked with a true predicate while a wake-up is under way. The results of the sections, in the order
in which they held the mutex, are those of the sections called one after the other (`log_run`).
-/

open Machine

/-- A wake-up call on a condition variable: `notify_one` or `notify_all`. -/
inductive CondVar.Signal (χ : Type*) where
  | one (c : χ)
  | all (c : χ)
  deriving DecidableEq

/-- What a critical section does whose predicate holds: the new state, the result, and the wake-up calls that it makes
before and after it unlocks the mutex. -/
structure CondVar.Done (σ χ ρ : Type*) where
  state : σ
  result : ρ
  inside : Option (CondVar.Signal χ) := none
  after : Option (CondVar.Signal χ) := none

/-- The operations `κ` on a state of type `σ`, with the condition variables `χ` and the results `ρ`. -/
structure CondVar (σ κ χ ρ : Type*) where
  /-- The condition variable that the call waits on, if it waits. -/
  cv : κ → Option χ
  /-- The critical section; `none` if the predicate of the wait fails. -/
  body : σ → κ → Option (CondVar.Done σ χ ρ)
  /-- The result of a wait whose time is over; `none` if it waits for ever. -/
  timeout : κ → Option ρ

namespace CondVar

variable {τ σ κ χ ρ : Type*}

/-- Where a thread stands; `leaving` has unlocked the mutex and owes a wake-up call. -/
inductive Pc (κ χ : Type*) where
  | idle
  | entering (k : κ)
  | blocked (k : κ)
  | notified (k : κ)
  | expired (k : κ)
  | leaving (sig : Signal χ)

/-- The shared state and where the threads stand. -/
structure System (τ σ κ χ : Type*) where
  state : σ
  pcs : τ → Pc κ χ

/-- What a thread does next; `picked` is the thread that a `notify_one` goes to. -/
inductive Act (τ κ : Type*) where
  | call (k : κ)
  | enter (picked : τ)
  | wakeUp
  | expire
  | signal (picked : τ)

/-- All the threads before their first calls. -/
def start (x : σ) : System τ σ κ χ := ⟨x, fun _ => .idle⟩

variable [DecidableEq χ]

section steps

variable (M : CondVar σ κ χ ρ)

/-- The thread is blocked on the condition variable. -/
def BlockedOn (c : χ) : Pc κ χ → Prop
  | .blocked k => M.cv k = some c
  | _ => False

instance blockedOnDecidable (c : χ) : (pc : Pc κ χ) → Decidable (BlockedOn M c pc)
  | .blocked k => inferInstanceAs (Decidable (M.cv k = some c))
  | .idle | .entering _ | .notified _ | .expired _ | .leaving _ => inferInstanceAs (Decidable False)

/-- A thread that a wake-up call on `c` reaches. -/
def wake (c : χ) : Pc κ χ → Pc κ χ
  | .blocked k => if M.cv k = some c then .notified k else .blocked k
  | pc => pc

variable [DecidableEq τ]

/-- The threads after a wake-up call. -/
def deliver (sig : Option (Signal χ)) (picked : τ) (pcs : τ → Pc κ χ) : τ → Pc κ χ :=
  match sig with
  | none => pcs
  | some (.one c) => Function.update pcs picked (wake M c (pcs picked))
  | some (.all c) => fun t => wake M c (pcs t)

variable [Fintype τ]

/-- A `notify_one` goes to a blocked thread if there is one. -/
def Picks (sig : Option (Signal χ)) (picked : τ) (pcs : τ → Pc κ χ) : Prop :=
  match sig with
  | some (.one c) => (∃ t, BlockedOn M c (pcs t)) → BlockedOn M c (pcs picked)
  | _ => True

instance picksDecidable (sig : Option (Signal χ)) (picked : τ) (pcs : τ → Pc κ χ) :
    Decidable (Picks M sig picked pcs) :=
  match sig with
  | some (.one c) => inferInstanceAs (Decidable ((∃ t, BlockedOn M c (pcs t)) → BlockedOn M c (pcs picked)))
  | some (.all _) | none => inferInstanceAs (Decidable True)

/-- A thread goes on. -/
def System.goto (s : System τ σ κ χ) (t : τ) (pc : Pc κ χ) : System τ σ κ χ :=
  { s with pcs := Function.update s.pcs t pc }

/-- Where a thread stands behind its critical section. -/
def Pc.behind (after : Option (Signal χ)) : Pc κ χ :=
  match after with
  | some sig => .leaving sig
  | none => .idle

/-- The critical section of a call; `late` if its time is over. -/
def System.enter (s : System τ σ κ χ) (t picked : τ) (k : κ) (late : Bool) : System τ σ κ χ × Option (κ × ρ) :=
  match M.body s.state k with
  | some d =>
    if Picks M d.inside picked s.pcs then
      (⟨d.state, Function.update (deliver M d.inside picked s.pcs) t (.behind d.after)⟩, some (k, d.result))
    else (s, none)
  | none =>
    match late, M.timeout k with
    | true, some r => (s.goto t .idle, some (k, r))
    | _, _ => (s.goto t (.blocked k), none)

/-- One step of one thread; what it cannot do has no effect. A critical section that is passed is logged. -/
def step (s : System τ σ κ χ) (i : τ × Act τ κ) : System τ σ κ χ × Option (κ × ρ) :=
  match i.2, s.pcs i.1 with
  | .call k, .idle => (s.goto i.1 (.entering k), none)
  | .enter picked, .entering k | .enter picked, .notified k => s.enter M i.1 picked k false
  | .enter picked, .expired k => s.enter M i.1 picked k true
  | .wakeUp, .blocked k => (s.goto i.1 (.notified k), none)
  | .expire, .blocked k | .expire, .notified k =>
    if (M.timeout k).isSome then (s.goto i.1 (.expired k), none) else (s, none)
  | .signal picked, .leaving sig =>
    if Picks M (some sig) picked s.pcs then
      (⟨s.state, Function.update (deliver M (some sig) picked s.pcs) i.1 .idle⟩, none)
    else (s, none)
  | _, _ => (s, none)

/-! ## The sections one after the other -/

/-- The log of critical sections that take the state `s` to the state `s'` when they run one after the other. -/
inductive Log : σ → List (κ × ρ) → σ → Prop
  | nil {s : σ} : Log s [] s
  | done {s s' : σ} {k : κ} {d : Done σ χ ρ} {es : List (κ × ρ)} (h : M.body s k = some d) (hs : Log d.state es s') :
      Log s ((k, d.result) :: es) s'
  | timeout {s s' : σ} {k : κ} {r : ρ} {es : List (κ × ρ)} (h : M.body s k = none) (hr : M.timeout k = some r)
      (hs : Log s es s') : Log s ((k, r) :: es) s'

/-- The critical sections of a run, in order. -/
def log (s : System τ σ κ χ) (is : List (τ × Act τ κ)) : List (κ × ρ) := (run (step M) s is).2.reduceOption

end steps

variable [DecidableEq τ] [Fintype τ] {M : CondVar σ κ χ ρ} {s : System τ σ κ χ}

/-- What is logged is the result of a section, or that of a wait whose time is over. -/
theorem step_eq_some {s : System τ σ κ χ} {i : τ × Act τ κ} {k : κ} {r : ρ} (h : (step M s i).2 = some (k, r)) :
    (∃ d, M.body s.state k = some d ∧ r = d.result) ∨
      M.body s.state k = none ∧ M.timeout k = some r ∧ s.pcs i.1 = .expired k := by
  have henter : ∀ {t picked : τ} {k' : κ} {late : Bool}, (s.enter M t picked k' late).2 = some (k, r) →
      (∃ d, M.body s.state k = some d ∧ r = d.result) ∨
        M.body s.state k = none ∧ M.timeout k = some r ∧ late = true ∧ k' = k := by
    intro t picked k' late h
    unfold System.enter at h
    split at h
    · next d hb =>
      split at h
      · obtain ⟨rfl, rfl⟩ := Prod.mk.inj (Option.some.inj h)
        exact .inl ⟨d, hb, rfl⟩
      · exact nomatch h
    · next hb =>
      split at h
      · next hr =>
        obtain ⟨rfl, rfl⟩ := Prod.mk.inj (Option.some.inj h)
        exact .inr ⟨hb, hr, rfl, rfl⟩
      · exact nomatch h
  unfold step at h
  split at h
  · exact nomatch h
  · exact (henter h).imp_right fun hlate => nomatch hlate.2.2.1
  · exact (henter h).imp_right fun hlate => nomatch hlate.2.2.1
  · next hpc => exact (henter h).imp_right fun ⟨hb, hr, _, hk⟩ => ⟨hb, hr, hk ▸ hpc⟩
  · exact nomatch h
  · split at h <;> exact nomatch h
  · split at h <;> exact nomatch h
  · split at h <;> exact nomatch h
  · exact nomatch h

/-- What a step does to the shared state: nothing, or a section that it logs. -/
theorem step_log (s : System τ σ κ χ) (i : τ × Act τ κ) :
    (step M s i).2 = none ∧ (step M s i).1.state = s.state ∨
      ∃ e, (step M s i).2 = some e ∧ ∀ es s', Log M (step M s i).1.state es s' → Log M s.state (e :: es) s' := by
  have henter : ∀ t picked k late, (s.enter M t picked k late).2 = none ∧
      (s.enter M t picked k late).1.state = s.state ∨ ∃ e, (s.enter M t picked k late).2 = some e ∧
        ∀ es s', Log M (s.enter M t picked k late).1.state es s' → Log M s.state (e :: es) s' := by
    intro t picked k late
    unfold System.enter
    cases hb : M.body s.state k with
    | some d =>
      dsimp only
      split
      · exact .inr ⟨_, rfl, fun es s' h => .done hb h⟩
      · exact .inl ⟨rfl, rfl⟩
    | none =>
      dsimp only
      split
      · next hr => exact .inr ⟨_, rfl, fun es s' h => .timeout hb hr h⟩
      · exact .inl ⟨rfl, rfl⟩
  unfold step
  split
  · exact .inl ⟨rfl, rfl⟩
  · exact henter _ _ _ _
  · exact henter _ _ _ _
  · exact henter _ _ _ _
  · exact .inl ⟨rfl, rfl⟩
  · split <;> exact .inl ⟨rfl, rfl⟩
  · split <;> exact .inl ⟨rfl, rfl⟩
  · split <;> exact .inl ⟨rfl, rfl⟩
  · exact .inl ⟨rfl, rfl⟩

/-- The critical sections of a run are those of a sequential run. -/
theorem log_run (s : System τ σ κ χ) (is : List (τ × Act τ κ)) :
    Log M s.state (log M s is) (run (step M) s is).1.state := by
  induction is generalizing s with
  | nil => exact .nil
  | cons i is ih =>
    rw [log, run_cons]
    dsimp only
    obtain ⟨ho, hs⟩ | ⟨e, ho, hs⟩ := step_log s i
    · rw [ho, List.reduceOption_cons_of_none, ← hs]
      exact ih _
    · rw [ho, List.reduceOption_cons_of_some]
      exact hs _ _ (ih _)

omit [DecidableEq χ] in
/-- What every section keeps, a log of sections keeps. -/
theorem Log.inv {P : σ → Prop} (hP : ∀ s k d, P s → M.body s k = some d → P d.state) {x y : σ} {es : List (κ × ρ)}
    (h : Log M x es y) (hx : P x) : P y := by
  induction h with
  | nil => exact hx
  | done hb _ ih => exact ih (hP _ _ _ hx hb)
  | timeout _ _ _ ih => exact ih hx

omit [DecidableEq χ] in
/-- An entry of a log is a section on the state that the entries before it leave. -/
theorem Log.entry {x y : σ} {es before after : List (κ × ρ)} {k : κ} {r : ρ} (h : Log M x es y)
    (hes : es = before ++ (k, r) :: after) :
    ∃ z, Log M x before z ∧
      ((∃ d, M.body z k = some d ∧ d.result = r) ∨ M.body z k = none ∧ M.timeout k = some r) := by
  induction h generalizing before with
  | nil => simp at hes
  | @done x y k' d es hb hs ih =>
    cases before with
    | nil =>
      rw [List.nil_append, List.cons.injEq, Prod.mk.injEq] at hes
      obtain ⟨⟨rfl, hr⟩, -⟩ := hes
      exact ⟨x, .nil, .inl ⟨d, hb, hr⟩⟩
    | cons e before =>
      rw [List.cons_append, List.cons.injEq] at hes
      obtain ⟨z, hz, hentry⟩ := ih hes.2
      rw [← hes.1]
      exact ⟨z, .done hb hz, hentry⟩
  | @timeout x y k' r' es hb hr hs ih =>
    cases before with
    | nil =>
      rw [List.nil_append, List.cons.injEq, Prod.mk.injEq] at hes
      obtain ⟨⟨rfl, rfl⟩, -⟩ := hes
      exact ⟨x, .nil, .inr ⟨hb, hr⟩⟩
    | cons e before =>
      rw [List.cons_append, List.cons.injEq] at hes
      obtain ⟨z, hz, hentry⟩ := ih hes.2
      rw [← hes.1]
      exact ⟨z, .timeout hb hr hz, hentry⟩

/-! ## Counting the wake-ups -/

section counting

variable (M) (P : σ → Prop) (enough : σ → χ → Nat → Prop)

/-- The wake-ups for `c` that a thread has got and not used yet, or owes. -/
def credit (c : χ) : Pc κ χ → Nat
  | .notified k | .expired k => if M.cv k = some c then 1 else 0
  | .leaving sig => if sig = .one c then 1 else 0
  | _ => 0

/-- The wake-ups for `c` that are under way, a `notify_all` apart. -/
def credits (c : χ) (pcs : τ → Pc κ χ) : Nat := ∑ t, credit M c (pcs t)

/-- What a wake-up call adds to them while a thread is blocked. -/
def gain (sig : Option (Signal χ)) (c : χ) : Nat := if sig = some (.one c) then 1 else 0

/-- What the sections owe each other: `enough x c n` says that `n` wake-ups on `c` are enough in the state `x`. A
predicate fails where none is needed, and a section that uses up one wake-up leaves enough of them, those that it
makes itself included. -/
structure Lawful : Prop where
  keeps : ∀ {x k d}, P x → M.body x k = some d → P d.state
  waits : ∀ {x k}, M.body x k = none → M.cv k ≠ none
  mono : ∀ {x c m n}, enough x c m → m ≤ n → enough x c n
  fails : ∀ {x k c}, P x → M.cv k = some c → (M.body x k = none ↔ enough x c 0)
  pays : ∀ {x k d c n}, P x → M.body x k = some d → enough x c (n + if M.cv k = some c then 1 else 0) →
    d.inside = some (.all c) ∨ d.after = some (.all c) ∨ enough d.state c (n + gain d.inside c + gain d.after c)

/-- While a thread is blocked, enough wake-ups are under way. -/
structure Counted (s : System τ σ κ χ) : Prop where
  good : P s.state
  waits : ∀ {t k}, s.pcs t = .blocked k → M.cv k ≠ none
  enough : ∀ {c}, (∃ t, BlockedOn M c (s.pcs t)) →
    (∃ t, s.pcs t = .leaving (.all c)) ∨ enough s.state c (credits M c s.pcs)

/-- The thread has been woken up for `c` and has not tested its predicate yet, or it owes a wake-up call on `c`. -/
def UnderWay (c : χ) : Pc κ χ → Prop
  | .notified k | .expired k => M.cv k = some c
  | .leaving sig => sig = .one c ∨ sig = .all c
  | _ => False

/-- A thread is only blocked with a true predicate while a wake-up for it is under way. -/
def NoLostWakeUp (s : System τ σ κ χ) : Prop :=
  ∀ t k, s.pcs t = .blocked k → M.body s.state k ≠ none → ∃ c, M.cv k = some c ∧ ∃ u, UnderWay M c (s.pcs u)

end counting

variable {P : σ → Prop} {enough : σ → χ → Nat → Prop} {pcs : τ → Pc κ χ} {pc : Pc κ χ} {sig : Option (Signal χ)}
  {c c' : χ} {t picked : τ} {k : κ}

theorem credits_update (pcs : τ → Pc κ χ) (t : τ) (pc : Pc κ χ) :
    credits M c (Function.update pcs t pc) + credit M c (pcs t) = credits M c pcs + credit M c pc := by
  obtain ⟨rest, hsum, -, hupdate⟩ := Threads.sum_update (credit M c) pcs t
  have hnew := hupdate pc
  unfold credits
  omega

/-! ### A wake-up call -/

theorem blockedOn_wake : BlockedOn M c (wake M c' pc) ↔ BlockedOn M c pc ∧ c ≠ c' := by
  cases pc with
  | blocked k =>
    dsimp only [wake]
    by_cases hk : M.cv k = some c'
    · rw [if_pos hk]
      refine iff_of_false id fun h => h.2 ?_
      exact Option.some.inj (h.1.symm.trans hk)
    · rw [if_neg hk]
      refine ⟨fun h => ⟨h, ?_⟩, fun h => h.1⟩
      rintro rfl
      exact hk h
  | idle | entering k | notified k | expired k | leaving sig => exact ⟨False.elim, fun h => h.1⟩

theorem credit_wake : credit M c (wake M c' pc) = credit M c pc + if BlockedOn M c pc ∧ c = c' then 1 else 0 := by
  cases pc with
  | blocked k =>
    dsimp only [wake]
    by_cases hk : M.cv k = some c'
    · rw [if_pos hk]
      by_cases hc : c = c'
      · subst hc
        rw [if_pos ⟨hk, rfl⟩, credit, if_pos hk]
        rfl
      · rw [if_neg (fun h => hc h.2), credit, if_neg (fun h => hc (Option.some.inj (h.symm.trans hk)))]
        rfl
    · rw [if_neg hk, if_neg]
      · rfl
      · rintro ⟨h, rfl⟩
        exact hk h
  | idle | entering k | notified k | expired k | leaving sig => rw [if_neg (fun h => h.1)]; rfl

theorem wake_eq_leaving {g : Signal χ} : wake M c pc = .leaving g ↔ pc = .leaving g := by
  cases pc with
  | blocked k =>
    dsimp only [wake]
    split <;> exact iff_of_false (by simp) (by simp)
  | idle | entering k | notified k | expired k | leaving sig => exact Iff.rfl

omit [Fintype τ] in
/-- A wake-up call reaches blocked threads only. -/
theorem deliver_apply (sig : Option (Signal χ)) (picked : τ) (pcs : τ → Pc κ χ) (t : τ) :
    deliver M sig picked pcs t = pcs t ∨ ∃ c, deliver M sig picked pcs t = wake M c (pcs t) := by
  unfold deliver
  split
  · exact .inl rfl
  · by_cases ht : t = picked
    · subst ht
      rw [Function.update_self]
      exact .inr ⟨_, rfl⟩
    · rw [Function.update_of_ne ht]
      exact .inl rfl
  · exact .inr ⟨_, rfl⟩

omit [Fintype τ] in
theorem deliver_eq_leaving {g : Signal χ} : deliver M sig picked pcs t = .leaving g ↔ pcs t = .leaving g := by
  obtain h | ⟨c, h⟩ := deliver_apply (M := M) sig picked pcs t
  · rw [h]
  · rw [h, wake_eq_leaving]

/-- If a thread is still blocked on `c` after a wake-up call, the call was none of all on `c`, and one on `c` has added
a wake-up. -/
theorem deliver_credits (hp : Picks M sig picked pcs) (hb : ∃ t, BlockedOn M c (deliver M sig picked pcs t)) :
    sig ≠ some (.all c) ∧ (∃ t, BlockedOn M c (pcs t)) ∧
      credits M c pcs + gain sig c ≤ credits M c (deliver M sig picked pcs) := by
  obtain ⟨t, ht⟩ := hb
  obtain _ | ⟨c' | c'⟩ := sig
  · exact ⟨by simp, ⟨t, ht⟩, le_rfl⟩
  · have hblocked : BlockedOn M c (pcs t) := by
      obtain h | ⟨c'', h⟩ := deliver_apply (M := M) (some (.one c')) picked pcs t
      · rwa [h] at ht
      · rw [h, blockedOn_wake] at ht
        exact ht.1
    refine ⟨by simp, ⟨t, hblocked⟩, ?_⟩
    have hsum := credits_update (M := M) (c := c) pcs picked (wake M c' (pcs picked))
    rw [credit_wake] at hsum
    have hgain : gain (some (.one c')) c = if BlockedOn M c (pcs picked) ∧ c = c' then 1 else 0 := by
      unfold gain
      by_cases hc : c = c'
      · subst hc
        rw [if_pos rfl, if_pos ⟨hp ⟨t, hblocked⟩, rfl⟩]
      · rw [if_neg (fun h : BlockedOn M c (pcs picked) ∧ c = c' => hc h.2), if_neg]
        rintro h
        cases h
        exact hc rfl
    rw [hgain]
    exact le_of_eq (by rw [deliver]; omega)
  · rw [deliver, blockedOn_wake] at ht
    refine ⟨?_, ⟨t, ht.1⟩, ?_⟩
    · rintro h
      cases h
      exact ht.2 rfl
    · have hle : ∀ u ∈ Finset.univ, credit M c (pcs u) ≤ credit M c (deliver M (some (.all c')) picked pcs u) := by
        intro u _
        rw [deliver, credit_wake]
        exact Nat.le_add_right _ _
      exact Finset.sum_le_sum hle

/-! ### A step -/

omit [DecidableEq χ] [Fintype τ] in
theorem System.goto_self : (s.goto t pc).pcs t = pc := Function.update_self ..

omit [DecidableEq χ] [Fintype τ] in
theorem System.goto_of_ne {u : τ} (h : u ≠ t) : (s.goto t pc).pcs u = s.pcs u := Function.update_of_ne h ..

/-- A step that leaves the state alone: a thread that used a wake-up up found its predicate false. -/
theorem Counted.goto (hM : Lawful M P enough) (h : Counted M P enough s) (ht : ∀ c, s.pcs t ≠ .leaving (.all c))
    (hwaits : ∀ k, pc = .blocked k → M.cv k ≠ none)
    (hpc : ∀ c, enough s.state c 0 ∨ ¬BlockedOn M c pc ∧ credit M c (s.pcs t) ≤ credit M c pc) :
    Counted M P enough (s.goto t pc) where
  good := h.good
  waits := by
    intro u k hu
    by_cases hut : u = t
    · subst hut
      rw [System.goto_self] at hu
      exact hwaits k hu
    · rw [System.goto_of_ne hut] at hu
      exact h.waits hu
  enough := by
    rintro c ⟨u, hu⟩
    obtain hzero | ⟨hnot, hle⟩ := hpc c
    · exact .inr (hM.mono hzero (Nat.zero_le _))
    · have hut : u ≠ t := by
        rintro rfl
        rw [System.goto_self] at hu
        exact hnot hu
      rw [System.goto_of_ne hut] at hu
      obtain ⟨v, hv⟩ | henough := h.enough ⟨u, hu⟩
      · have hvt : v ≠ t := by
          rintro rfl
          exact ht c hv
        exact .inl ⟨v, (System.goto_of_ne hvt).trans hv⟩
      · have hsum := credits_update (M := M) (c := c) s.pcs t pc
        have hmore : credits M c s.pcs ≤ credits M c (s.goto t pc).pcs := by
          dsimp only [System.goto]
          omega
        exact .inr (hM.mono henough hmore)

omit [DecidableEq χ] in
theorem Pc.behind_not_blocked (after : Option (Signal χ)) : ¬BlockedOn M c (.behind after) := by
  cases after <;> exact id

theorem credit_behind (after : Option (Signal χ)) : credit M c (.behind after) = gain after c := by
  cases after with
  | none => rfl
  | some sig =>
    unfold gain Pc.behind credit
    simp only [Option.some.injEq]

/-- The thread is in a call and about to lock the mutex. -/
def AtDoor (k : κ) (pc : Pc κ χ) : Prop := pc = .entering k ∨ pc = .notified k ∨ pc = .expired k

theorem AtDoor.credit_le (h : AtDoor k pc) : credit M c pc ≤ if M.cv k = some c then 1 else 0 := by
  obtain rfl | rfl | rfl := h
  · exact Nat.zero_le _
  · exact le_rfl
  · exact le_rfl

omit [DecidableEq χ] in
theorem AtDoor.not_leaving (h : AtDoor k pc) (g : Signal χ) : pc ≠ .leaving g := by
  obtain rfl | rfl | rfl := h <;> simp

theorem AtDoor.wake_eq (h : AtDoor k pc) : wake M c pc = pc := by
  obtain rfl | rfl | rfl := h <;> rfl

omit [Fintype τ] in
theorem AtDoor.deliver_eq (h : AtDoor k (pcs t)) : deliver M sig picked pcs t = pcs t := by
  obtain hd | ⟨c, hd⟩ := deliver_apply (M := M) sig picked pcs t
  · exact hd
  · rw [hd, h.wake_eq]

omit [DecidableEq τ] in
theorem credit_le_credits (pcs : τ → Pc κ χ) (t : τ) : credit M c (pcs t) ≤ credits M c pcs :=
  Finset.single_le_sum (f := fun u => credit M c (pcs u)) (fun _ _ => Nat.zero_le _) (Finset.mem_univ t)

omit [Fintype τ] in
/-- A wake-up call blocks nobody. -/
theorem deliver_eq_blocked (h : deliver M sig picked pcs t = .blocked k) : pcs t = .blocked k := by
  obtain hd | ⟨c, hd⟩ := deliver_apply (M := M) sig picked pcs t
  · exact hd.symm.trans h
  · rw [hd] at h
    cases hpc : pcs t with
    | blocked k' =>
      rw [hpc, wake] at h
      split at h
      · simp at h
      · exact h
    | idle | entering k' | notified k' | expired k' | leaving g => rw [hpc] at h; simp [wake] at h

/-- A wake-up call, and then the thread that made it goes on. -/
theorem Counted.waits_deliver (h : Counted M P enough s) (hpc : ∀ k, pc ≠ .blocked k) {u : τ}
    (hu : Function.update (deliver M sig picked s.pcs) t pc u = .blocked k) : M.cv k ≠ none := by
  by_cases hut : u = t
  · subst hut
    rw [Function.update_self] at hu
    exact absurd hu (hpc k)
  · rw [Function.update_of_ne hut] at hu
    exact h.waits (deliver_eq_blocked hu)

/-- A section whose predicate holds: it has used up a wake-up at most, and makes good for what it changes. -/
theorem Counted.done (hM : Lawful M P enough) (h : Counted M P enough s) {d : Done σ χ ρ} (ht : AtDoor k (s.pcs t))
    (hb : M.body s.state k = some d) (hp : Picks M d.inside picked s.pcs) :
    Counted M P enough ⟨d.state, Function.update (deliver M d.inside picked s.pcs) t (.behind d.after)⟩ where
  good := hM.keeps h.good hb
  waits := h.waits_deliver (by cases d.after <;> simp [Pc.behind])
  enough := by
    rintro c ⟨u, hu⟩
    dsimp only at hu ⊢
    have hut : u ≠ t := by
      rintro rfl
      rw [Function.update_self] at hu
      exact Pc.behind_not_blocked _ hu
    rw [Function.update_of_ne hut] at hu
    obtain ⟨hall, hold, hle⟩ := deliver_credits hp ⟨u, hu⟩
    obtain ⟨v, hv⟩ | henough := h.enough hold
    · have hvt : v ≠ t := by
        rintro rfl
        exact ht.not_leaving _ hv
      exact .inl ⟨v, (Function.update_of_ne hvt ..).trans (deliver_eq_leaving.mpr hv)⟩
    · have hdoor := ht.credit_le (M := M) (c := c)
      have hself := credit_le_credits (M := M) (c := c) s.pcs t
      have hsum := credits_update (M := M) (c := c) (deliver M d.inside picked s.pcs) t (.behind d.after)
      rw [ht.deliver_eq, credit_behind] at hsum
      obtain ha | ha | ha := hM.pays (n := credits M c s.pcs - credit M c (s.pcs t)) h.good hb
        (hM.mono henough (by omega))
      · exact absurd ha hall
      · refine .inl ⟨t, ?_⟩
        rw [Function.update_self, ha]
        rfl
      · exact .inr (hM.mono ha (by omega))

/-- A wake-up call after the section. -/
theorem Counted.signal (hM : Lawful M P enough) (h : Counted M P enough s) {g : Signal χ}
    (ht : s.pcs t = .leaving g) (hp : Picks M (some g) picked s.pcs) :
    Counted M P enough ⟨s.state, Function.update (deliver M (some g) picked s.pcs) t .idle⟩ where
  good := h.good
  waits := h.waits_deliver (by simp)
  enough := by
    rintro c ⟨u, hu⟩
    dsimp only at hu ⊢
    have hut : u ≠ t := by
      rintro rfl
      rw [Function.update_self] at hu
      exact hu
    rw [Function.update_of_ne hut] at hu
    obtain ⟨hall, hold, hle⟩ := deliver_credits hp ⟨u, hu⟩
    obtain ⟨v, hv⟩ | henough := h.enough hold
    · have hvt : v ≠ t := by
        rintro rfl
        rw [ht] at hv
        cases hv
        exact hall rfl
      exact .inl ⟨v, (Function.update_of_ne hvt ..).trans (deliver_eq_leaving.mpr hv)⟩
    · have hsum := credits_update (M := M) (c := c) (deliver M (some g) picked s.pcs) t .idle
      rw [deliver_eq_leaving.mpr ht] at hsum
      have hgain : credit M c (.leaving g) = gain (some g) c := credit_behind (some g)
      have hidle : credit M c (.idle : Pc κ χ) = 0 := rfl
      exact .inr (hM.mono henough (by omega))

theorem Counted.enter (hM : Lawful M P enough) (h : Counted M P enough s) (ht : AtDoor k (s.pcs t)) (picked : τ)
    (late : Bool) : Counted M P enough (s.enter M t picked k late).1 := by
  unfold System.enter
  cases hb : M.body s.state k with
  | some d =>
    dsimp only
    split
    · next hp => exact h.done hM ht hb hp
    · exact h
  | none =>
    have hzero : ∀ c, enough s.state c 0 ∨ M.cv k ≠ some c := by
      intro c
      by_cases hc : M.cv k = some c
      · exact .inl ((hM.fails h.good hc).mp hb)
      · exact .inr hc
    have hcredit : ∀ c, M.cv k ≠ some c → ∀ pc : Pc κ χ, credit M c (s.pcs t) ≤ credit M c pc := by
      intro c hc pc
      have hle := ht.credit_le (M := M) (c := c)
      rw [if_neg hc] at hle
      omega
    dsimp only
    split
    · refine h.goto hM (fun c => ht.not_leaving _) (by simp) fun c => ?_
      exact (hzero c).imp_right fun hc => ⟨id, hcredit c hc _⟩
    · refine h.goto hM (fun c => ht.not_leaving _) ?_ fun c => ?_
      · rintro k' hk'
        cases hk'
        exact hM.waits hb
      · exact (hzero c).imp_right fun hc => ⟨hc, hcredit c hc _⟩

/-- Every step keeps the count. -/
theorem Counted.step (hM : Lawful M P enough) (h : Counted M P enough s) (i : τ × Act τ κ) :
    Counted M P enough (step M s i).1 := by
  unfold CondVar.step
  split
  · next ht =>
    refine h.goto hM ?_ (by simp) fun c => .inr ⟨id, ?_⟩
    · intro c
      rw [ht]
      simp
    · rw [ht]
      exact le_rfl
  · next ht => exact h.enter hM (.inl ht) _ _
  · next ht => exact h.enter hM (.inr (.inl ht)) _ _
  · next ht => exact h.enter hM (.inr (.inr ht)) _ _
  · next ht =>
    refine h.goto hM ?_ (by simp) fun c => .inr ⟨id, ?_⟩
    · intro c
      rw [ht]
      simp
    · rw [ht]
      exact Nat.zero_le _
  · next ht =>
    split
    · refine h.goto hM ?_ (by simp) fun c => .inr ⟨id, ?_⟩
      · intro c
        rw [ht]
        simp
      · rw [ht]
        exact Nat.zero_le _
    · exact h
  · next ht =>
    split
    · refine h.goto hM ?_ (by simp) fun c => .inr ⟨id, ?_⟩
      · intro c
        rw [ht]
        simp
      · rw [ht]
        exact le_rfl
    · exact h
  · next ht =>
    split
    · next hp => exact h.signal hM ht hp
    · exact h
  · exact h

theorem underWay_of_credit (h : 0 < credit M c pc) : UnderWay M c pc := by
  cases pc with
  | notified k | expired k =>
    by_contra hc
    have hcv : M.cv k ≠ some c := hc
    rw [credit, if_neg hcv] at h
    exact lt_irrefl 0 h
  | leaving sig =>
    by_contra hc
    rw [credit, if_neg (fun hs => hc (.inl hs))] at h
    exact lt_irrefl 0 h
  | idle | entering k | blocked k => exact absurd h (lt_irrefl 0)

omit [DecidableEq τ] in
theorem Counted.noLostWakeUp (hM : Lawful M P enough) (h : Counted M P enough s) : NoLostWakeUp M s := by
  intro t k ht hb
  obtain ⟨c, hc⟩ := Option.ne_none_iff_exists'.mp (h.waits ht)
  have hblocked : BlockedOn M c (s.pcs t) := by
    rw [ht]
    exact hc
  refine ⟨c, hc, ?_⟩
  obtain ⟨u, hu⟩ | henough := h.enough ⟨t, hblocked⟩
  · refine ⟨u, ?_⟩
    rw [hu]
    exact .inr rfl
  · by_contra hnone
    have hzero : credits M c s.pcs = 0 := by
      refine Finset.sum_eq_zero fun u _ => ?_
      by_contra hu
      exact hnone ⟨u, underWay_of_credit (Nat.pos_of_ne_zero hu)⟩
    rw [hzero] at henough
    exact hb ((hM.fails h.good hc).mpr henough)

omit [DecidableEq τ] in
theorem start_counted {x : σ} (hx : P x) : Counted M P enough (start x : System τ σ κ χ) where
  good := hx
  waits := by
    intro t k h
    simp [start] at h
  enough := by
    rintro c ⟨t, ht⟩
    exact ht.elim

/-- No wake-up is lost in a run. -/
theorem noLostWakeUp (hM : Lawful M P enough) {x : σ} (hx : P x) (is : List (τ × Act τ κ)) :
    NoLostWakeUp M (run (step M) (start x) is).1 :=
  have hstep : ∀ (s : System τ σ κ χ) i, Counted M P enough s → True → Counted M P enough (step M s i).1 :=
    fun _ i h _ => h.step hM i
  have hcounted : Counted M P enough (run (step M) (start x) is).1 :=
    inv_run hstep (start_counted hx) (meets_of_forall (fun _ _ => trivial) _ _)
  hcounted.noLostWakeUp hM

end CondVar
