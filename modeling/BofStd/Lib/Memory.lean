import Mathlib.Algebra.Group.Nat.Defs
import Mathlib.Tactic.Basic
import Mathlib.Data.List.Nodup
import Mathlib.Data.List.Rotate
import Mathlib.Logic.Function.Basic

/-!
# Flat memory and circular windows

A storage area is a function from offsets to cells. `read mem a n` is the list of the `n` cells from
offset `a` on, `write mem a xs` stores `xs` there, and `circ N mem i n` is the list of `n` cells read
from index `i` on with indices taken modulo `N`. The lemmas say how the three compose: what a write
does to a read, and how a circular window grows and shrinks at its two ends.
-/

namespace Memory

variable {α : Type*}

/-- The `n` cells from offset `a` on. -/
def read (mem : Nat → α) (a n : Nat) : List α := (List.range n).map fun k => mem (a + k)

/-- Store the cells `xs` from offset `a` on. -/
def write (mem : Nat → α) (a : Nat) : List α → Nat → α
  | [] => mem
  | x :: xs => write (Function.update mem a x) (a + 1) xs

/-- The `n` cells from index `i` on, indices taken modulo `N`. -/
def circ (N : Nat) (mem : Nat → α) (i n : Nat) : List α :=
  (List.range n).map fun k => mem ((i + k) % N)

/-! ## Linear reads and writes -/

@[simp] theorem length_read (mem : Nat → α) (a n : Nat) : (read mem a n).length = n := by
  simp [read]

/-- A read is the image of the range of its offsets. -/
theorem read_eq_map (mem : Nat → α) (a n : Nat) : read mem a n = (List.range' a n).map mem := by
  rw [List.range'_eq_map_range, List.map_map]
  rfl

theorem take_range' (a n m : Nat) : (List.range' a n).take m = List.range' a (min m n) := by
  rcases Nat.le_total m n with h | h
  · rw [List.take_range'_of_length_ge h, Nat.min_eq_left h]
  · rw [List.take_range'_of_length_le h, Nat.min_eq_right h]

theorem drop_range' (a n m : Nat) :
    (List.range' a n).drop m = List.range' (a + min m n) (n - min m n) := by
  rw [List.drop_range', Nat.mul_one]
  rcases Nat.le_total m n with h | h
  · rw [Nat.min_eq_left h]
  · rw [Nat.min_eq_right h, Nat.sub_eq_zero_of_le h, Nat.sub_self, List.range'_zero, List.range'_zero]

theorem read_succ (mem : Nat → α) (a n : Nat) :
    read mem a (n + 1) = mem a :: read mem (a + 1) n := by
  simp only [read, List.range_succ_eq_map, List.map_cons, List.map_map, Nat.add_zero]
  congr 1
  refine List.map_congr_left fun k _ => ?_
  simp only [Function.comp_apply]
  congr 1
  omega

theorem read_add (mem : Nat → α) (a m n : Nat) :
    read mem a (m + n) = read mem a m ++ read mem (a + m) n := by
  simp only [read, List.range_add, List.map_append, List.map_map]
  congr 1
  refine List.map_congr_left fun k _ => ?_
  simp only [Function.comp_apply]
  congr 1
  omega

/-- The front of what is read. -/
theorem take_read_min (mem : Nat → α) (a n k : Nat) : (read mem a n).take k = read mem a (min k n) := by
  rw [read_eq_map, read_eq_map, ← List.map_take, take_range']

theorem take_read (mem : Nat → α) (a : Nat) {m n : Nat} (h : m ≤ n) : (read mem a n).take m = read mem a m := by
  rw [take_read_min, Nat.min_eq_left h]

theorem read_congr {mem mem' : Nat → α} {a n : Nat}
    (h : ∀ j, a ≤ j → j < a + n → mem j = mem' j) : read mem a n = read mem' a n := by
  refine List.map_congr_left fun k hk => h _ (by omega) ?_
  have := List.mem_range.mp hk
  omega

/-- Equal reads have equal cells. -/
theorem cell_eq_of_read_eq {mem mem' : Nat → α} {a n j : Nat} (h : read mem a n = read mem' a n) (hj : a ≤ j)
    (hlt : j < a + n) : mem j = mem' j := by
  rw [read_eq_map, read_eq_map, List.map_inj_left] at h
  exact h j (List.mem_range'_1.mpr ⟨hj, hlt⟩)

/-- A write changes only the cells it covers. -/
theorem write_of_outside (mem : Nat → α) (a : Nat) (xs : List α) {j : Nat}
    (h : j < a ∨ a + xs.length ≤ j) : write mem a xs j = mem j := by
  induction xs generalizing mem a with
  | nil => rfl
  | cons x xs ih =>
    simp only [List.length_cons] at h
    rw [write, ih _ _ (by omega), Function.update_of_ne (by omega)]

/-- One write behind the other. -/
theorem write_append (mem : Nat → α) (a : Nat) (xs ys : List α) :
    write mem a (xs ++ ys) = write (write mem a xs) (a + xs.length) ys := by
  induction xs generalizing mem a with
  | nil => rfl
  | cons x xs ih =>
    rw [List.cons_append, write, write, ih, List.length_cons]
    congr 1
    omega

/-- Reading back what was written. -/
theorem read_write_self (mem : Nat → α) (a : Nat) (xs : List α) :
    read (write mem a xs) a xs.length = xs := by
  induction xs generalizing mem a with
  | nil => rfl
  | cons x xs ih =>
    rw [List.length_cons, read_succ, write, ih, write_of_outside _ _ _ (by omega)]
    simp

/-- A write leaves the reads of disjoint regions alone. -/
theorem read_write_of_disjoint (mem : Nat → α) (a : Nat) (xs : List α) {b n : Nat}
    (h : b + n ≤ a ∨ a + xs.length ≤ b) : read (write mem a xs) b n = read mem b n :=
  read_congr fun _ h1 h2 => write_of_outside mem a xs (by omega)

/-- What is written behind a region is read behind it. -/
theorem read_write_behind (mem : Nat → α) (a n : Nat) (xs : List α) :
    read (write mem (a + n) xs) a (n + xs.length) = read mem a n ++ xs := by
  rw [read_add, read_write_self, read_write_of_disjoint _ _ _ (by omega)]

/-! ## Circular windows -/

@[simp] theorem circ_zero (N : Nat) (mem : Nat → α) (i : Nat) : circ N mem i 0 = [] := rfl

@[simp] theorem length_circ (N : Nat) (mem : Nat → α) (i n : Nat) :
    (circ N mem i n).length = n := by
  simp [circ]

theorem circ_congr {N N' i i' n : Nat} {mem mem' : Nat → α}
    (h : ∀ k, k < n → mem ((i + k) % N) = mem' ((i' + k) % N')) :
    circ N mem i n = circ N' mem' i' n :=
  List.map_congr_left fun k hk => h k (List.mem_range.mp hk)

@[simp] theorem circ_mod (N : Nat) (mem : Nat → α) (i n : Nat) :
    circ N mem (i % N) n = circ N mem i n :=
  circ_congr fun k _ => by rw [Nat.mod_add_mod]

theorem circ_add (N : Nat) (mem : Nat → α) (i m n : Nat) :
    circ N mem i (m + n) = circ N mem i m ++ circ N mem (i + m) n := by
  simp only [circ, List.range_add, List.map_append, List.map_map]
  congr 1
  refine List.map_congr_left fun k _ => ?_
  simp only [Function.comp_apply, Nat.add_assoc]

/-- The window grows by one cell at its end. -/
theorem circ_succ (N : Nat) (mem : Nat → α) (i n : Nat) :
    circ N mem i (n + 1) = circ N mem i n ++ [mem ((i + n) % N)] := by
  rw [circ_add]
  rfl

/-- The first cell of a window, and the window that starts after it. -/
theorem circ_succ_left (N : Nat) (mem : Nat → α) (i n : Nat) :
    circ N mem i (n + 1) = mem (i % N) :: circ N mem (i + 1) n := by
  rw [Nat.add_comm n 1, circ_add]
  rfl

/-- Two offsets less than one turn apart name different cells. -/
theorem mod_ne_mod {N i k l : Nat} (hk : k < l) (hl : l < k + N) : (i + k) % N ≠ (i + l) % N := by
  intro h
  have h0 := Nat.sub_mod_eq_zero_of_mod_eq h.symm
  rw [Nat.add_sub_add_left, Nat.mod_eq_of_lt (by omega)] at h0
  omega

/-- Writing the cell behind the end of the window leaves the window alone. -/
theorem circ_update_end {N i n : Nat} (mem : Nat → α) (x : α) (h : n < N) :
    circ N (Function.update mem ((i + n) % N) x) i n = circ N mem i n :=
  circ_congr fun k hk => Function.update_of_ne (mod_ne_mod hk (by omega)) _ _

/-- Writing the cell behind the end of the window and taking it in appends the value. -/
theorem circ_update_succ {N i n : Nat} (mem : Nat → α) (x : α) (h : n < N) :
    circ N (Function.update mem ((i + n) % N) x) i (n + 1) = circ N mem i n ++ [x] := by
  rw [circ_succ, circ_update_end mem x h, Function.update_self]

/-- Writing the cell in front of the window and taking it in puts the value first. -/
theorem circ_update_front {N i n : Nat} (mem : Nat → α) (x : α) (h : n < N) :
    circ N (Function.update mem (i % N) x) i (n + 1) = x :: circ N mem (i + 1) n := by
  rw [circ_succ_left, Function.update_self]
  congr 1
  refine circ_congr fun k hk => Function.update_of_ne ?_ _ _
  have hne := mod_ne_mod (N := N) (i := i) (k := 0) (l := 1 + k) (by omega) (by omega)
  rw [Nat.add_zero, ← Nat.add_assoc] at hne
  exact hne.symm

/-- A window that does not reach the end of the storage is a linear read. -/
theorem circ_eq_read {N i n : Nat} (mem : Nat → α) (h : i + n ≤ N) :
    circ N mem i n = read mem i n :=
  List.map_congr_left fun k hk => by
    have := List.mem_range.mp hk
    rw [Nat.mod_eq_of_lt (by omega)]

theorem drop_circ (N : Nat) (mem : Nat → α) (i : Nat) {m n : Nat} (h : m ≤ n) :
    (circ N mem i n).drop m = circ N mem (i + m) (n - m) := by
  obtain ⟨d, rfl⟩ := Nat.exists_eq_add_of_le h
  rw [circ_add, List.drop_append_of_le_length (by simp), List.drop_of_length_le (by simp)]
  simp

/-- The whole storage read from an index further on. -/
theorem circ_eq_rotate (N : Nat) (mem : Nat → α) (i : Nat) {d : Nat} (h : d ≤ N) :
    circ N mem (i + d) N = (circ N mem i N).rotate d := by
  obtain ⟨m, rfl⟩ := Nat.exists_eq_add_of_le h
  have hturn : circ (d + m) mem (i + d + m) d = circ (d + m) mem i d := by
    rw [← circ_mod, show i + d + m = i + (d + m) by omega, Nat.add_mod_right, circ_mod]
  have hfront : circ (d + m) mem (i + d) (d + m) = circ (d + m) mem (i + d) m ++ circ (d + m) mem i d := by
    rw [← hturn, ← circ_add, Nat.add_comm m d]
  rw [hfront, List.rotate_eq_drop_append_take (by simp), drop_circ _ _ _ (by omega), circ_add,
    List.take_left' (by simp), Nat.add_sub_cancel_left]

/-- The indices of a window that does not reach the end of the storage. -/
theorem circ_id_eq_range' {N i n : Nat} (h : i + n ≤ N) : circ N id i n = List.range' i n := by
  rw [circ_eq_read id h, read_eq_map, List.map_id]

/-- The indices of a window that is cut by the end of the storage. -/
theorem circ_id_eq_append {N i n : Nat} (hi : i ≤ N) (h : N ≤ i + n) (hn : n ≤ N) :
    circ N id i n = List.range' i (N - i) ++ List.range' 0 (n - (N - i)) := by
  have hsplit : n = (N - i) + (n - (N - i)) := by omega
  have hmod := circ_mod N (id : Nat → Nat) N (n - (N - i))
  rw [Nat.mod_self] at hmod
  rw [hsplit, circ_add, circ_id_eq_range' (by omega), Nat.add_sub_cancel' hi, ← hmod,
    circ_id_eq_range' (by omega), Nat.add_sub_cancel_left]

/-- A window of at most one turn has no index twice. -/
theorem nodup_circ_id {N i n : Nat} (h : n ≤ N) : (circ N id i n).Nodup := by
  refine List.Nodup.map_on (fun k hk l hl heq => ?_) List.nodup_range
  rw [List.mem_range] at hk hl
  by_contra hne
  rcases Nat.lt_or_gt_of_ne hne with hlt | hlt
  · exact mod_ne_mod hlt (by omega) heq
  · exact mod_ne_mod hlt (by omega) heq.symm

/-- Advancing an index by one with a wrap at `N` is adding one modulo `N`. -/
theorem ite_succ_eq_mod {N i : Nat} (h : i < N) : (if i + 1 ≥ N then 0 else i + 1) = (i + 1) % N := by
  split
  · rw [show i + 1 = N by omega, Nat.mod_self]
  · rw [Nat.mod_eq_of_lt (by omega)]

/-- Stepping an index back by one with a wrap below zero is the inverse. -/
theorem ite_pred_eq_mod {N m : Nat} (h : 0 < N) :
    (if (m + 1) % N = 0 then N - 1 else (m + 1) % N - 1) = m % N := by
  have hlt := Nat.mod_lt m h
  have hstep : (m + 1) % N = if m % N + 1 ≥ N then 0 else m % N + 1 := by
    rw [ite_succ_eq_mod hlt, Nat.mod_add_mod]
  rw [hstep]
  by_cases hq : m % N + 1 ≥ N
  · rw [if_pos hq, if_pos rfl]
    omega
  · rw [if_neg hq, if_neg (by omega), Nat.add_sub_cancel]

end Memory
