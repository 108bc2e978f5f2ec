import Mathlib.Tactic.Basic
import Mathlib.Data.List.Sort

/-!
# Bottom-up merge sort on lists

A list is the concatenation of its runs; one pass merges each run with its neighbour (`mergePairs`). Merging keeps
elements that are in order in their order (`Keeps`), so that the last run left is the stable sort of the list.
-/

namespace MergeRuns

variable {α : Type*} {le : α → α → Bool} {l l' l'' xs ys : List α} {rs : List (List α)} {a b : α} {k : Nat}

/-- One pass. -/
def mergePairs (le : α → α → Bool) : List (List α) → List (List α)
  | r :: r' :: rs => r.merge r' le :: mergePairs le rs
  | rs => rs

/-- The list `l'` has the elements of `l`, and any two that are in order are still in it. -/
structure Keeps (le : α → α → Bool) (l l' : List α) : Prop where
  perm : l'.Perm l
  order : ∀ a b, [a, b].Sublist l → le a b = true → [a, b].Sublist l'

/-- All the elements are in order. -/
def Sorted (le : α → α → Bool) (l : List α) : Prop := l.Pairwise fun a b => le a b = true

/-- Runs of the length `k`, but for the last one, which may be shorter. -/
inductive Runs (k : Nat) : List (List α) → Prop
  | nil : Runs k []
  | last {r : List α} (hpos : r ≠ []) (hle : r.length ≤ k) : Runs k [r]
  | cons {r r' : List α} {rs : List (List α)} (hlen : r.length = k) (h : Runs k (r' :: rs)) : Runs k (r :: r' :: rs)

/-! ## Runs -/

theorem Runs.tail {r : List α} (h : Runs k (r :: rs)) : Runs k rs := by
  cases h with
  | last => exact .nil
  | cons _ h => exact h

theorem Runs.head_le {r : List α} (h : Runs k (r :: rs)) : r.length ≤ k := by
  cases h with
  | last _ hle => exact hle
  | cons hlen _ => exact Nat.le_of_eq hlen

/-- Only the last run is shorter. -/
theorem Runs.head_eq {r : List α} (h : Runs k (r :: rs)) : r.length = k ∨ rs = [] := by
  cases h with
  | last => exact Or.inr rfl
  | cons hlen _ => exact Or.inl hlen

theorem Runs.ne_nil (hk : 0 < k) {r : List α} (h : Runs k (r :: rs)) : r ≠ [] := by
  cases h with
  | last hpos _ => exact hpos
  | cons hlen _ =>
    rintro rfl
    rw [List.length_nil] at hlen
    omega

/-- The first merge of a pass: the first run is merged with the next one, or with no elements if there is none. -/
theorem Runs.first_pair {r : List α} (h : Runs k (r :: rs)) (le : α → α → Bool) :
    ∃ r' rs', rs.flatten = r' ++ rs'.flatten ∧ (k = r'.length ∨ r'.length ≤ k ∧ rs'.flatten = []) ∧ Runs k rs' ∧
      rs'.length ≤ rs.length ∧ MergeRuns.mergePairs le (r :: rs) = r.merge r' le :: MergeRuns.mergePairs le rs' := by
  cases rs with
  | nil =>
    refine ⟨[], [], rfl, Or.inr ⟨Nat.zero_le _, rfl⟩, .nil, Nat.le_refl _, ?_⟩
    rw [List.merge_right]
    rfl
  | cons r' rs =>
    refine ⟨r', rs, List.flatten_cons, ?_, h.tail.tail, Nat.le_succ _, rfl⟩
    rcases h.tail.head_eq with heq | rfl
    · exact Or.inl heq.symm
    · exact Or.inr ⟨h.tail.head_le, rfl⟩

theorem runs_singletons (l : List α) : Runs 1 (l.map fun a => [a]) := by
  induction l with
  | nil => exact .nil
  | cons a l ih =>
    cases l with
    | nil => exact .last (List.cons_ne_nil a []) (Nat.le_refl 1)
    | cons b l => exact .cons rfl ih

theorem mergePairs_ne_nil (le : α → α → Bool) (h : rs ≠ []) : mergePairs le rs ≠ [] := by
  cases rs with
  | nil => exact absurd rfl h
  | cons r rs =>
    cases rs with
    | nil => exact List.cons_ne_nil r []
    | cons r' rs => exact List.cons_ne_nil _ _

/-- A pass doubles the length of the runs. -/
theorem Runs.mergePairs (hk : 0 < k) (h : Runs k rs) : Runs (2 * k) (mergePairs le rs) := by
  induction rs using MergeRuns.mergePairs.induct with
  | case1 r r' rs ih =>
    have hlen := List.length_merge le r r'
    have hpos := List.length_pos_iff.mpr (h.ne_nil hk)
    have hrest := ih h.tail.tail
    rw [MergeRuns.mergePairs]
    cases hs : MergeRuns.mergePairs le rs with
    | nil =>
      have hle := h.tail.head_le
      have hle' := h.head_le
      exact .last (List.length_pos_iff.mp (by omega)) (by omega)
    | cons r'' rs' =>
      -- neither of the two runs is the last one
      have hrs : rs ≠ [] := by
        rintro rfl
        exact List.cons_ne_nil r'' rs' hs.symm
      have h1 := h.head_eq.resolve_right (List.cons_ne_nil r' rs)
      have h2 := h.tail.head_eq.resolve_right hrs
      rw [hs] at hrest
      exact .cons (by omega) hrest
  | case2 rs hrs =>
    cases h with
    | nil => exact .nil
    | last hpos hle => exact .last hpos (by omega)
    | cons hlen h => exact absurd rfl (hrs _ _ _)

/-- A pass over three runs or more leaves fewer of them. -/
theorem length_mergePairs_le (le : α → α → Bool) (rs : List (List α)) :
    (mergePairs le rs).length ≤ rs.length ∧ (2 ≤ (mergePairs le rs).length → (mergePairs le rs).length < rs.length) := by
  induction rs using MergeRuns.mergePairs.induct with
  | case1 r r' rs ih =>
    rw [mergePairs, List.length_cons, List.length_cons, List.length_cons]
    omega
  | case2 rs hrs =>
    cases rs with
    | nil => exact ⟨Nat.le_refl _, fun h => absurd h (Nat.not_succ_le_zero 1)⟩
    | cons r rs =>
      cases rs with
      | nil => exact ⟨Nat.le_refl _, fun h => absurd h (Nat.not_succ_le_self 1)⟩
      | cons r' rs => exact absurd rfl (hrs r r' rs)

/-- There are no more runs than elements. -/
theorem Runs.length_le (hk : 0 < k) (h : Runs k rs) : rs.length ≤ rs.flatten.length := by
  induction rs with
  | nil => exact Nat.le_refl 0
  | cons r rs ih =>
    have hpos := List.length_pos_iff.mpr (h.ne_nil hk)
    have hle := ih h.tail
    rw [List.length_cons, List.flatten_cons, List.length_append]
    omega

/-- With two runs or more the list is longer than a run. -/
theorem Runs.lt_length (hk : 0 < k) (h : Runs k rs) (h2 : 2 ≤ rs.length) : k < rs.flatten.length := by
  cases h with
  | nil => exact absurd h2 (Nat.not_succ_le_zero 1)
  | last => exact absurd h2 (Nat.not_succ_le_self 1)
  | @cons r r' rs hlen h =>
    have hpos := List.length_pos_iff.mpr (h.ne_nil hk)
    rw [List.flatten_cons, List.flatten_cons, List.length_append, List.length_append]
    omega

/-! ## What merging keeps -/

theorem Keeps.refl (l : List α) : Keeps le l l := ⟨List.Perm.refl l, fun _ _ h _ => h⟩

theorem Keeps.trans (h : Keeps le l l') (h' : Keeps le l' l'') : Keeps le l l'' :=
  ⟨h'.perm.trans h.perm, fun a b hs hle => h'.order a b (h.order a b hs hle) hle⟩

theorem pair_sublist_append (ha : a ∈ xs) (hb : b ∈ ys) : [a, b].Sublist (xs ++ ys) :=
  (List.singleton_sublist.mpr ha).append (List.singleton_sublist.mpr hb)

/-- Two elements in this order are on the same side of a cut, or on the two sides. -/
theorem pair_sublist_append_iff :
    [a, b].Sublist (xs ++ ys) ↔ [a, b].Sublist xs ∨ (a ∈ xs ∧ b ∈ ys) ∨ [a, b].Sublist ys := by
  constructor
  · intro h
    obtain ⟨l₁, l₂, heq, h₁, h₂⟩ := List.sublist_append_iff.mp h
    cases l₁ with
    | nil =>
      rw [List.nil_append] at heq
      exact Or.inr (Or.inr (heq ▸ h₂))
    | cons c l₁ =>
      cases l₁ with
      | nil =>
        obtain ⟨rfl, rfl⟩ := List.cons_eq_cons.mp heq
        exact Or.inr (Or.inl ⟨List.singleton_sublist.mp h₁, List.singleton_sublist.mp h₂⟩)
      | cons d l₁ =>
        obtain ⟨rfl, htail⟩ := List.cons_eq_cons.mp heq
        obtain ⟨rfl, hnil⟩ := List.cons_eq_cons.mp htail
        rw [(List.append_eq_nil_iff.mp hnil.symm).1] at h₁
        exact Or.inl h₁
  · rintro (h | ⟨ha, hb⟩ | h)
    · exact h.trans (List.sublist_append_left xs ys)
    · exact pair_sublist_append ha hb
    · exact h.trans (List.sublist_append_right xs ys)

theorem Keeps.append {xs' ys' : List α} (hx : Keeps le xs xs') (hy : Keeps le ys ys') :
    Keeps le (xs ++ ys) (xs' ++ ys') := by
  refine ⟨hx.perm.append hy.perm, ?_⟩
  intro a b hs hle
  rw [pair_sublist_append_iff] at hs ⊢
  rcases hs with h | ⟨ha, hb⟩ | h
  · exact Or.inl (hx.order a b h hle)
  · exact Or.inr (Or.inl ⟨hx.perm.mem_iff.mpr ha, hy.perm.mem_iff.mpr hb⟩)
  · exact Or.inr (Or.inr (hy.order a b h hle))

theorem sublist_merge (le : α → α → Bool) (xs ys : List α) :
    xs.Sublist (xs.merge ys le) ∧ ys.Sublist (xs.merge ys le) := by
  induction xs generalizing ys with
  | nil =>
    rw [List.nil_merge]
    exact ⟨List.nil_sublist ys, List.Sublist.refl ys⟩
  | cons x xs ihx =>
    induction ys with
    | nil =>
      rw [List.merge_right]
      exact ⟨List.Sublist.refl _, List.nil_sublist _⟩
    | cons y ys ihy =>
      rw [List.cons_merge_cons]
      split
      · exact ⟨(ihx (y :: ys)).1.cons_cons x, (ihx (y :: ys)).2.cons x⟩
      · exact ⟨ihy.1.cons y, ihy.2.cons_cons y⟩

/-- An element of the first list stays in front of an element of the second one that is not below it. -/
theorem pair_sublist_merge (htrans : ∀ a b c, le a b = true → le b c = true → le a c = true) (hx : Sorted le xs)
    (ha : a ∈ xs) (hb : b ∈ ys) (hle : le a b = true) : [a, b].Sublist (xs.merge ys le) := by
  induction xs generalizing ys with
  | nil => exact absurd ha List.not_mem_nil
  | cons x xs ihx =>
    have hxa : x = a ∨ a ∈ xs ∧ le x a = true := by
      rcases List.mem_cons.mp ha with rfl | hmem
      · exact Or.inl rfl
      · exact Or.inr ⟨hmem, List.rel_of_pairwise_cons hx hmem⟩
    induction ys with
    | nil => exact absurd hb List.not_mem_nil
    | cons y ys ihy =>
      rw [List.cons_merge_cons]
      by_cases hxy : le x y = true
      · rw [if_pos hxy]
        rcases hxa with rfl | ⟨hmem, -⟩
        · exact (List.singleton_sublist.mpr (List.mem_merge_right le hb)).cons_cons x
        · exact (ihx hx.tail hmem hb).cons x
      · rw [if_neg hxy]
        have hyb : b ∈ ys := by
          rcases List.mem_cons.mp hb with rfl | hmem
          · -- the first element would have been in order with it
            rcases hxa with rfl | ⟨-, hle'⟩
            · exact absurd hle hxy
            · exact absurd (htrans x a b hle' hle) hxy
          · exact hmem
        exact (ihy hyb).cons y

theorem keeps_merge (htrans : ∀ a b c, le a b = true → le b c = true → le a c = true) (hx : Sorted le xs) :
    Keeps le (xs ++ ys) (xs.merge ys le) := by
  refine ⟨List.merge_perm_append le, ?_⟩
  intro a b hs hle
  rcases pair_sublist_append_iff.mp hs with h | ⟨ha, hb⟩ | h
  · exact h.trans (sublist_merge le xs ys).1
  · exact pair_sublist_merge htrans hx ha hb hle
  · exact h.trans (sublist_merge le xs ys).2

theorem perm_mergePairs (le : α → α → Bool) (rs : List (List α)) :
    (mergePairs le rs).flatten.Perm rs.flatten := by
  induction rs using MergeRuns.mergePairs.induct with
  | case1 r r' rs ih =>
    rw [mergePairs, List.flatten_cons, List.flatten_cons, List.flatten_cons, ← List.append_assoc]
    exact (List.merge_perm_append le).append ih
  | case2 rs hrs => rw [mergePairs]; exact hrs

/-- A pass over sorted runs leaves sorted runs. -/
theorem mergePairs_spec (htrans : ∀ a b c, le a b = true → le b c = true → le a c = true)
    (htotal : ∀ a b, (le a b || le b a) = true) (h : ∀ r ∈ rs, Sorted le r) :
    (∀ r ∈ mergePairs le rs, Sorted le r) ∧ Keeps le rs.flatten (mergePairs le rs).flatten := by
  induction rs using MergeRuns.mergePairs.induct with
  | case1 r r' rs ih =>
    rw [List.forall_mem_cons, List.forall_mem_cons] at h
    obtain ⟨hr, hr', hrs⟩ := h
    obtain ⟨hsorted, hkeeps⟩ := ih hrs
    rw [mergePairs, List.forall_mem_cons, List.flatten_cons, List.flatten_cons, List.flatten_cons, ← List.append_assoc]
    exact ⟨⟨List.pairwise_merge htrans htotal r r' hr hr', hsorted⟩, (keeps_merge htrans hr).append hkeeps⟩
  | case2 rs hrs =>
    rw [mergePairs]
    · exact ⟨h, Keeps.refl _⟩
    · exact hrs

end MergeRuns
