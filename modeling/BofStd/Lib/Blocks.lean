import Mathlib.Tactic.Basic
import Mathlib.Data.List.Basic

/-!
# Streams cut into blocks

`blocks B l` are the complete blocks of `B` elements of `l` in order, and `rest B l` is what is left
behind them. A machine that takes a stream in chunks and keeps the incomplete block in a buffer works
by `blocks_append`: the blocks of the whole stream are those of the first part and those of what was left
of it together with the second part.
-/

namespace Blocks

variable {β : Type*} {B : Nat}

/-- The complete blocks. -/
def blocks (B : Nat) (l : List β) : List (List β) :=
  (List.range (l.length / B)).map fun i => (l.drop (B * i)).take B

/-- What is left behind the complete blocks. -/
def rest (B : Nat) (l : List β) : List β := l.drop (B * (l.length / B))

theorem length_of_mem_blocks {l b : List β} (h : b ∈ blocks B l) : b.length = B := by
  obtain ⟨i, hi, rfl⟩ := List.mem_map.mp h
  have hblock : B * (i + 1) ≤ B * (l.length / B) := Nat.mul_le_mul_left B (List.mem_range.mp hi)
  have hdiv := Nat.mul_div_le l.length B
  rw [Nat.mul_succ] at hblock
  rw [List.length_take, List.length_drop]
  omega

theorem length_rest (l : List β) : (rest B l).length = l.length % B := by
  rw [rest, List.length_drop, Nat.mod_eq_sub_mul_div]

/-- A complete block in front. -/
theorem blocks_block_append (hB : 0 < B) {a : List β} (ha : a.length = B) (l : List β) :
    blocks B (a ++ l) = a :: blocks B l := by
  have hdiv : (a ++ l).length / B = l.length / B + 1 := by
    rw [List.length_append, ha, Nat.add_comm, Nat.add_div_right _ hB]
  rw [blocks, hdiv, List.range_succ_eq_map, List.map_cons, List.map_map]
  congr 1
  · rw [Nat.mul_zero, List.drop_zero, List.take_left' ha]
  · refine List.map_congr_left fun i _ => ?_
    have hshift : B * (i + 1) = a.length + B * i := by rw [ha, Nat.mul_succ, Nat.add_comm]
    simp only [Function.comp_apply, Nat.succ_eq_add_one, hshift]
    rw [← List.drop_drop, List.drop_left]

theorem rest_block_append (hB : 0 < B) {a : List β} (ha : a.length = B) (l : List β) :
    rest B (a ++ l) = rest B l := by
  have hdiv : (a ++ l).length / B = l.length / B + 1 := by
    rw [List.length_append, ha, Nat.add_comm, Nat.add_div_right _ hB]
  have hshift : B * (l.length / B + 1) = a.length + B * (l.length / B) := by
    rw [ha, Nat.mul_succ, Nat.add_comm]
  rw [rest, hdiv, hshift, ← List.drop_drop, List.drop_left, rest]

theorem blocks_of_lt {l : List β} (h : l.length < B) : blocks B l = [] := by
  rw [blocks, Nat.div_eq_of_lt h]
  rfl

theorem rest_of_lt {l : List β} (h : l.length < B) : rest B l = l := by
  rw [rest, Nat.div_eq_of_lt h, Nat.mul_zero, List.drop_zero]

/-- A single block. -/
theorem blocks_of_length (hB : 0 < B) {a : List β} (ha : a.length = B) : blocks B a = [a] ∧ rest B a = [] := by
  have hblocks := blocks_block_append hB ha []
  have hrest := rest_block_append hB ha []
  have hnil : blocks B ([] : List β) = [] := blocks_of_lt hB
  rw [List.append_nil] at hblocks hrest
  rw [hblocks, hrest, hnil, rest_of_lt hB]
  exact ⟨rfl, rfl⟩

/-- Complete blocks, one after the other, in front. -/
theorem blocks_append_of_length (hB : 0 < B) {a : List β} {k : Nat} (ha : a.length = B * k) (l : List β) :
    blocks B (a ++ l) = blocks B a ++ blocks B l ∧ rest B (a ++ l) = rest B l := by
  induction k generalizing a with
  | zero =>
    rw [Nat.mul_zero, List.length_eq_zero_iff] at ha
    subst ha
    exact ⟨by rw [blocks_of_lt (l := ([] : List β)) hB]; rfl, rfl⟩
  | succ k ih =>
    -- the first block is taken off
    have hle : B ≤ a.length := by
      rw [ha, Nat.mul_succ]
      omega
    have htake : (a.take B).length = B := List.length_take_of_le hle
    have hdrop : (a.drop B).length = B * k := by
      rw [List.length_drop, ha, Nat.mul_succ]
      omega
    obtain ⟨hblocks, hrest⟩ := ih hdrop
    have hsplit := List.take_append_drop B a
    constructor
    · rw [← hsplit, List.append_assoc, blocks_block_append hB htake, blocks_block_append hB htake, hblocks,
        List.cons_append]
    · rw [← hsplit, List.append_assoc, rest_block_append hB htake, hrest]

/-- The stream goes on: its blocks are taken from what was left and what has come. -/
theorem blocks_append (hB : 0 < B) (a b : List β) :
    blocks B (a ++ b) = blocks B a ++ blocks B (rest B a ++ b) ∧
      rest B (a ++ b) = rest B (rest B a ++ b) := by
  have hlen : (a.take (B * (a.length / B))).length = B * (a.length / B) :=
    List.length_take_of_le (Nat.mul_div_le _ _)
  have hsplit : a = a.take (B * (a.length / B)) ++ rest B a := (List.take_append_drop _ _).symm
  have hrest : blocks B (rest B a) = [] := by
    refine blocks_of_lt ?_
    rw [length_rest]
    exact Nat.mod_lt _ hB
  have hwhole : blocks B (a.take (B * (a.length / B))) = blocks B a := by
    have h := (blocks_append_of_length hB hlen (rest B a)).1
    rw [← hsplit, hrest, List.append_nil] at h
    exact h.symm
  have hab : a ++ b = a.take (B * (a.length / B)) ++ (rest B a ++ b) := by
    rw [← List.append_assoc, ← hsplit]
  obtain ⟨h1, h2⟩ := blocks_append_of_length hB hlen (rest B a ++ b)
  rw [hwhole] at h1
  rw [← hab] at h1 h2
  exact ⟨h1, h2⟩

end Blocks
