import Mathlib.Data.Finset.Range
import Mathlib.Data.Finset.Basic
import Mathlib.Tactic.Basic

/-!
# Words as sets of positions

`positions m` is the set of the positions of the bits that are set in the word `m`. The bitwise operations
are those of sets, and the tests on masks are tests on sets, so that what a program does to a word of flags
can be said about the flags.
-/

namespace BitMask

variable {w : Nat}

/-- The positions of the bits that are set. -/
def positions (m : BitVec w) : Finset Nat := (Finset.range w).filter fun i => m.getLsbD i = true

theorem mem_positions {m : BitVec w} {i : Nat} : i ∈ positions m ↔ m.getLsbD i = true := by
  rw [positions, Finset.mem_filter, Finset.mem_range]
  exact ⟨And.right, fun h => ⟨BitVec.lt_of_getLsbD h, h⟩⟩

theorem lt_of_mem_positions {m : BitVec w} {i : Nat} (h : i ∈ positions m) : i < w :=
  BitVec.lt_of_getLsbD (mem_positions.mp h)

/-- A word is known by the positions of its bits. -/
theorem positions_injective {m n : BitVec w} (h : positions m = positions n) : m = n := by
  refine BitVec.eq_of_getLsbD_eq fun i hi => ?_
  rw [Bool.eq_iff_iff, ← mem_positions, ← mem_positions, h]

theorem positions_zero : positions (0 : BitVec w) = ∅ := by
  refine Finset.eq_empty_of_forall_notMem fun i hi => ?_
  have h := mem_positions.mp hi
  simp at h

theorem positions_eq_empty {m : BitVec w} : positions m = ∅ ↔ m = 0 :=
  ⟨fun h => positions_injective (h.trans positions_zero.symm), fun h => h ▸ positions_zero⟩

theorem positions_or (m n : BitVec w) : positions (m ||| n) = positions m ∪ positions n := by
  ext i
  rw [mem_positions, BitVec.getLsbD_or, Bool.or_eq_true, Finset.mem_union, mem_positions, mem_positions]

theorem positions_and (m n : BitVec w) : positions (m &&& n) = positions m ∩ positions n := by
  ext i
  rw [mem_positions, BitVec.getLsbD_and, Bool.and_eq_true, Finset.mem_inter, mem_positions, mem_positions]

/-- Clearing the bits of `n`. -/
theorem positions_and_not (m n : BitVec w) : positions (m &&& ~~~n) = positions m \ positions n := by
  ext i
  rw [mem_positions, BitVec.getLsbD_and, BitVec.getLsbD_not, Bool.and_eq_true, Bool.and_eq_true,
    Finset.mem_sdiff, mem_positions, mem_positions, decide_eq_true_eq, Bool.not_eq_true']
  constructor
  · rintro ⟨hm, -, hn⟩
    exact ⟨hm, by simp [hn]⟩
  · rintro ⟨hm, hn⟩
    exact ⟨hm, BitVec.lt_of_getLsbD hm, by simpa using hn⟩

/-- The word with one bit. -/
theorem positions_one_shiftLeft {i : Nat} (h : i < w) : positions (1#w <<< i) = {i} := by
  ext j
  rw [mem_positions, Finset.mem_singleton, BitVec.getLsbD_shiftLeft, BitVec.getLsbD_one]
  constructor
  · intro hj
    simp only [Bool.and_eq_true, decide_eq_true_eq, Bool.not_eq_true', decide_eq_false_iff_not] at hj
    omega
  · rintro rfl
    simp [h]
    omega

/-- Whether a bit is set. -/
theorem and_one_shiftLeft_ne_zero {m : BitVec w} {i : Nat} (h : i < w) :
    m &&& (1#w <<< i) ≠ 0 ↔ i ∈ positions m := by
  rw [Ne, ← positions_eq_empty, positions_and, positions_one_shiftLeft h, ← Ne,
    ← Finset.nonempty_iff_ne_empty]
  constructor
  · rintro ⟨j, hj⟩
    rw [Finset.mem_inter, Finset.mem_singleton] at hj
    exact hj.2 ▸ hj.1
  · intro hi
    exact ⟨i, Finset.mem_inter.mpr ⟨hi, Finset.mem_singleton_self i⟩⟩

/-- Whether all the bits of a mask are set. -/
theorem and_eq_right_iff {m n : BitVec w} : m &&& n = n ↔ positions n ⊆ positions m := by
  rw [← Finset.inter_eq_right, ← positions_and]
  exact ⟨fun h => by rw [h], positions_injective⟩

end BitMask
