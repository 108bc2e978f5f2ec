import Mathlib.Tactic.Basic
import Mathlib.Data.List.Basic

/-!
# Stack machines

A word is read from left to right: each letter is skipped, pushed, or takes the top off the stack. There is no way on
if the stack is empty then. The letters that are skipped may be left out.
-/

namespace BofStd.StackMachine

/-- What a letter does. -/
inductive Action where
  | skip
  | pop
  | push
  deriving DecidableEq

variable {α : Type*} {act : α → Action} {stack stack' u v : List α} {a b : α}

/-- The stack behind a letter, with the top first. -/
def step (act : α → Action) (stack : List α) (a : α) : Option (List α) :=
  match act a, stack with
  | .skip, stack => some stack
  | .pop, [] => none
  | .pop, _ :: stack => some stack
  | .push, stack => some (a :: stack)

/-- The stack behind a word. -/
def run (act : α → Action) (stack : List α) (u : List α) : Option (List α) := u.foldlM (step act) stack

@[simp] theorem run_nil : run act stack [] = some stack := rfl

theorem run_cons : run act stack (a :: u) = (step act stack a).bind fun stack => run act stack u := rfl

theorem run_skip (h : act a = .skip) : run act stack (a :: u) = run act stack u := by
  rw [run_cons, step.eq_def, h, Option.bind_some]

theorem run_pop_nil (h : act a = .pop) : run act [] (a :: u) = none := by
  rw [run_cons, step.eq_def, h, Option.bind_none]

theorem run_pop (h : act a = .pop) : run act (b :: stack) (a :: u) = run act stack u := by
  rw [run_cons, step.eq_def, h, Option.bind_some]

theorem run_push (h : act a = .push) : run act stack (a :: u) = run act (a :: stack) u := by
  rw [run_cons, step.eq_def, h, Option.bind_some]

theorem run_append (u v : List α) (stack : List α) :
    run act stack (u ++ v) = (run act stack u).bind fun stack => run act stack v := List.foldlM_append

/-- The letters that are skipped may be left out. -/
theorem run_filter (u : List α) (stack : List α) :
    run act stack (u.filter fun a => act a ≠ .skip) = run act stack u := by
  induction u generalizing stack with
  | nil => rfl
  | cons a u ih =>
    cases ha : act a with
    | skip => rw [run_skip ha, List.filter_cons_of_neg (by rw [ha]; decide), ih]
    | pop =>
      rw [List.filter_cons_of_pos (by rw [ha]; decide)]
      cases stack with
      | nil => rw [run_pop_nil ha, run_pop_nil ha]
      | cons b stack => rw [run_pop ha, run_pop ha, ih]
    | push => rw [List.filter_cons_of_pos (by rw [ha]; decide), run_push ha, run_push ha, ih]

/-- The stack holds letters that were on it, and letters of the word that are pushed. -/
theorem mem_run (h : run act stack u = some stack') (ha : a ∈ stack') : a ∈ stack ∨ a ∈ u ∧ act a = .push := by
  induction u generalizing stack with
  | nil =>
    obtain rfl := Option.some.inj h
    exact .inl ha
  | cons b u ih =>
    have hlift : a ∈ u ∧ act a = .push → a ∈ b :: u ∧ act a = .push := fun hau => ⟨List.mem_cons_of_mem b hau.1, hau.2⟩
    cases hb : act b with
    | skip =>
      rw [run_skip hb] at h
      exact (ih h).imp_right hlift
    | pop =>
      cases stack with
      | nil =>
        rw [run_pop_nil hb] at h
        cases h
      | cons c stack =>
        rw [run_pop hb] at h
        exact (ih h).imp (List.mem_cons_of_mem c) hlift
    | push =>
      rw [run_push hb] at h
      rcases ih h with hmem | hau
      · rcases List.mem_cons.mp hmem with rfl | hmem
        · exact .inr ⟨List.mem_cons_self, hb⟩
        · exact .inl hmem
      · exact .inr (hlift hau)

end BofStd.StackMachine
