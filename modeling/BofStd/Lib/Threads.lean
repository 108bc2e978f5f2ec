import Mathlib.Algebra.BigOperators.Group.Finset.Basic
import Mathlib.Algebra.Order.BigOperators.Group.Finset

/-!
# Sums over threads

A system of finitely many threads is a family of local states, and a step changes one of them. What the
threads own or owe together is a sum over the family; `sum_update` splits off the thread that takes the
step, so that a step is accounted for by its own thread.
-/

namespace Threads

variable {τ θ : Type*} [Fintype τ] [DecidableEq τ]

/-- The share of one thread in a sum, and the rest, which a step of this thread leaves alone. -/
theorem sum_update (f : θ → Nat) (threads : τ → θ) (t : τ) :
    ∃ rest, ∑ u, f (threads u) = f (threads t) + rest ∧ (∀ u, u ≠ t → f (threads u) ≤ rest) ∧
      ∀ th, ∑ u, f (Function.update threads t th u) = f th + rest := by
  refine ⟨∑ u ∈ Finset.univ.erase t, f (threads u), ?_, ?_, ?_⟩
  · exact (Finset.add_sum_erase Finset.univ _ (Finset.mem_univ t)).symm
  · intro u hu
    have hmem : u ∈ Finset.univ.erase t := Finset.mem_erase.mpr ⟨hu, Finset.mem_univ u⟩
    exact Finset.single_le_sum (f := fun u => f (threads u)) (fun _ _ => Nat.zero_le _) hmem
  · intro th
    have hrest : ∑ u ∈ Finset.univ.erase t, f (Function.update threads t th u) =
        ∑ u ∈ Finset.univ.erase t, f (threads u) := by
      apply Finset.sum_congr rfl
      intro u hu
      rw [Function.update_of_ne (Finset.ne_of_mem_erase hu)]
    rw [← Finset.add_sum_erase Finset.univ _ (Finset.mem_univ t), Function.update_self, hrest]

end Threads
