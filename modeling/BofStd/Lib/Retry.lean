import Mathlib.Tactic.Basic

/-!
# Loops that start again

A call that waits, tries, and starts again when it has failed: a `Round` either stops with a result or starts again in
another state. `loop` gives up after a number of rounds, and the call returns if some number is enough (`Returns`).
-/

namespace Retry

variable {σ ρ : Type*}

/-- What a round comes to. -/
inductive Round (σ ρ : Type*) where
  | again (s : σ)
  | stop (r : ρ)

/-- At most this number of rounds. -/
def loop (round : σ → Round σ ρ) : Nat → σ → Option ρ
  | 0, _ => none
  | rounds + 1, s =>
    match round s with
    | .again s' => loop round rounds s'
    | .stop r => some r

/-- The loop comes to an end. -/
def Returns (round : σ → Round σ ρ) (s : σ) : Prop := ∃ rounds, (loop round rounds s).isSome

variable {round : σ → Round σ ρ} {s s' : σ} {r : ρ}

theorem loop_stop (h : round s = .stop r) (rounds : Nat) : loop round (rounds + 1) s = some r := by
  rw [loop, h]

theorem loop_again (h : round s = .again s') (rounds : Nat) :
    loop round (rounds + 1) s = loop round rounds s' := by
  rw [loop, h]

theorem returns_stop (h : round s = .stop r) : Returns round s := ⟨1, by rw [loop_stop h 0]; rfl⟩

theorem returns_again_iff (h : round s = .again s') : Returns round s ↔ Returns round s' := by
  constructor
  · rintro ⟨rounds, hr⟩
    cases rounds with
    | zero => exact absurd hr Bool.false_ne_true
    | succ rounds =>
      rw [loop_again h] at hr
      exact ⟨rounds, hr⟩
  · rintro ⟨rounds, hr⟩
    refine ⟨rounds + 1, ?_⟩
    rw [loop_again h]
    exact hr

/-- A round that leaves everything as it is is repeated for ever. -/
theorem loop_fix (h : round s = .again s) (rounds : Nat) : loop round rounds s = none := by
  induction rounds with
  | zero => rfl
  | succ rounds ih => rw [loop_again h, ih]

theorem not_returns_fix (h : round s = .again s) : ¬ Returns round s := by
  rintro ⟨rounds, hr⟩
  rw [loop_fix h] at hr
  exact Bool.false_ne_true hr

/-- Rounds that keep to states in which they start again go on for ever. -/
theorem not_returns_of_inv {inv : σ → Prop} (h : ∀ s, inv s → ∃ s', round s = .again s' ∧ inv s') (hs : inv s) :
    ¬ Returns round s := by
  rintro ⟨rounds, hr⟩
  induction rounds generalizing s with
  | zero => exact Bool.false_ne_true hr
  | succ rounds ih =>
    obtain ⟨s', hagain, hs'⟩ := h s hs
    rw [loop_again hagain] at hr
    exact ih hs' hr

/-- If a second round always stops, the loop comes to an end. -/
theorem returns_of_second (h : ∀ s', round s = .again s' → ∃ r, round s' = .stop r) : Returns round s := by
  cases hs : round s with
  | stop r => exact returns_stop hs
  | again s' =>
    obtain ⟨r, hstop⟩ := h s' hs
    exact (returns_again_iff hs).mpr (returns_stop hstop)

/-- If a second round stops or leaves everything as it is, then two rounds decide. -/
theorem returns_iff_two (h : ∀ s', round s = .again s' → (∃ r, round s' = .stop r) ∨ round s' = .again s') :
    Returns round s ↔ (loop round 2 s).isSome := by
  constructor
  · intro hr
    cases hs : round s with
    | stop r => rw [loop_stop hs]; rfl
    | again s' =>
      rcases h s' hs with ⟨r, hstop⟩ | hfix
      · rw [loop_again hs, loop_stop hstop]
        rfl
      · exact absurd ((returns_again_iff hs).mp hr) (not_returns_fix hfix)
  · intro hr
    exact ⟨2, hr⟩

end Retry
