import Mathlib.Tactic.Basic
import Mathlib.Data.Tree.Basic
import Mathlib.Data.List.Basic

/-!
# Balanced search trees

The in-order sequence of a binary tree, the balance condition of AVL trees, and trees written from the
side of one of their subtrees: `join false x a y` has `x` on the left and `y` on the right, `join true`
is its mirror image. What a rotation does is the same on both sides: it regroups three subtrees, which
keeps the in-order sequence (`inorder_join_assoc`).
-/

namespace BinaryTree

variable {α : Type*}

/-- The elements from left to right. -/
def inorder : BinaryTree α → List α
  | nil => []
  | node a l r => inorder l ++ a :: inorder r

@[simp] theorem inorder_nil : (nil : BinaryTree α).inorder = [] := rfl

@[simp] theorem inorder_node (a : α) (l r : BinaryTree α) :
    (node a l r).inorder = l.inorder ++ a :: r.inorder := rfl

theorem length_inorder (t : BinaryTree α) : t.inorder.length = t.numNodes := by
  induction t with
  | nil => rfl
  | node a l r ihl ihr =>
    rw [inorder_node, List.length_append, List.length_cons, ihl, ihr, numNodes]
    omega

/-- At every node the heights of the two subtrees differ by at most one. -/
def IsAvl : BinaryTree α → Prop
  | nil => True
  | node _ l r => IsAvl l ∧ IsAvl r ∧ l.height ≤ r.height + 1 ∧ r.height ≤ l.height + 1

theorem eq_nil_of_height (t : BinaryTree α) (h : t.height = 0) : t = nil := by
  cases t with
  | nil => rfl
  | node a l r => exact absurd h (Nat.succ_ne_zero _)

/-- A tree of height at most one has at most a root. -/
theorem subtrees_nil {a : α} {l r : BinaryTree α} (h : (node a l r).height ≤ 1) :
    l = nil ∧ r = nil := by
  rw [height] at h
  exact ⟨eq_nil_of_height l (by omega), eq_nil_of_height r (by omega)⟩

/-! ## Trees seen from one side -/

/-- The tree with root `a` and subtree `x` on the left and `y` on the right, or its mirror image. -/
def join (mirror : Bool) (x : BinaryTree α) (a : α) (y : BinaryTree α) : BinaryTree α :=
  if mirror then node a y x else node a x y

variable {m : Bool} {a b : α} {x y z : BinaryTree α}

theorem exists_join {t : BinaryTree α} (h : t ≠ nil) (m : Bool) : ∃ x a y, t = join m x a y := by
  cases t with
  | nil => exact absurd rfl h
  | node a l r =>
    cases m with
    | false => exact ⟨l, a, r, rfl⟩
    | true => exact ⟨r, a, l, rfl⟩

theorem height_join : (join m x a y).height = max x.height y.height + 1 := by
  cases m with
  | false => rfl
  | true =>
    show max y.height x.height + 1 = _
    rw [Nat.max_comm]

theorem isAvl_join : (join m x a y).IsAvl ↔
    x.IsAvl ∧ y.IsAvl ∧ x.height ≤ y.height + 1 ∧ y.height ≤ x.height + 1 := by
  cases m with
  | false => rfl
  | true =>
    show y.IsAvl ∧ x.IsAvl ∧ _ ∧ _ ↔ _
    constructor
    · rintro ⟨hy, hx, h1, h2⟩
      exact ⟨hx, hy, h2, h1⟩
    · rintro ⟨hx, hy, h1, h2⟩
      exact ⟨hy, hx, h2, h1⟩

/-- Regrouping three subtrees keeps the in-order sequence. -/
theorem inorder_join_assoc :
    (join m (join m x a y) b z).inorder = (join m x a (join m y b z)).inorder := by
  cases m with
  | false => simp [join]
  | true => simp [join]

theorem inorder_join_twice {c : α} {w : BinaryTree α} :
    (join m (join m x a y) b (join m z c w)).inorder =
      (join m x a (join m (join m y b z) c w)).inorder := by
  cases m with
  | false => simp [join]
  | true => simp [join]

/-- The elements in order, from one side on. -/
def inorderFrom (mirror : Bool) (t : BinaryTree α) : List α :=
  if mirror then t.inorder.reverse else t.inorder

@[simp] theorem inorderFrom_nil : (nil : BinaryTree α).inorderFrom m = [] := by
  cases m <;> rfl

theorem inorderFrom_join :
    (join m x a y).inorderFrom m = x.inorderFrom m ++ a :: y.inorderFrom m := by
  cases m with
  | false => rfl
  | true => simp [join, inorderFrom]

theorem mem_inorderFrom {t : BinaryTree α} : a ∈ t.inorderFrom m ↔ a ∈ t.inorder := by
  cases m with
  | false => rfl
  | true => exact List.mem_reverse

/-- Induction on trees that are seen from one side. -/
theorem join_induction {motive : BinaryTree α → Prop} (m : Bool) (nil : motive nil)
    (join : ∀ x a y, motive x → motive y → motive (join m x a y)) (t : BinaryTree α) : motive t := by
  induction t with
  | nil => exact nil
  | node a l r ihl ihr =>
    cases m with
    | false => exact join l a r ihl ihr
    | true => exact join r a l ihr ihl

theorem mem_inorder_join {c : α} :
    c ∈ (join m x a y).inorder ↔ c = a ∨ c ∈ x.inorder ∨ c ∈ y.inorder := by
  cases m with
  | false =>
    simp only [join, Bool.false_eq_true, if_false, inorder_node, List.mem_append, List.mem_cons]
    constructor
    · rintro (h | h | h)
      · exact Or.inr (Or.inl h)
      · exact Or.inl h
      · exact Or.inr (Or.inr h)
    · rintro (h | h | h)
      · exact Or.inr (Or.inl h)
      · exact Or.inl h
      · exact Or.inr (Or.inr h)
  | true =>
    simp only [join, if_true, inorder_node, List.mem_append, List.mem_cons]
    constructor
    · rintro (h | h | h)
      · exact Or.inr (Or.inr h)
      · exact Or.inl h
      · exact Or.inr (Or.inl h)
    · rintro (h | h | h)
      · exact Or.inr (Or.inl h)
      · exact Or.inr (Or.inr h)
      · exact Or.inl h

end BinaryTree
