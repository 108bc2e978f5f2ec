import Mathlib.Tactic.Basic
import Mathlib.Data.List.Basic
import Mathlib.Data.List.Nodup

/-!
# Ordered forests

A forest is a sequence of trees, each a label with the forest of its subtrees, written from the last tree on. The
labels are listed in the order in which the forest is taken apart from the right, the subtrees before their root
(`nodes`). `under a` is the forest under a label, `remove a` cuts the tree at a label out, and `insert p a` adds a
label behind the subtrees of another. If the labels are distinct, cutting out keeps the labels that are not in the
tree (`mem_remove`).
-/

/-- A sequence of trees. -/
inductive Forest (α : Type*) where
  | nil
  | snoc (front : Forest α) (root : α) (sub : Forest α)

namespace Forest

variable {α : Type*} {f front sub : Forest α} {a b p : α}

/-- The labels of the roots, from the first to the last. -/
def roots : Forest α → List α
  | nil => []
  | snoc front a _ => front.roots ++ [a]

/-- The labels in the order in which the forest is taken apart. -/
def nodes : Forest α → List α
  | nil => []
  | snoc front a sub => sub.nodes ++ a :: front.nodes

@[simp] theorem roots_snoc : (snoc front a sub).roots = front.roots ++ [a] := rfl

@[simp] theorem nodes_snoc : (snoc front a sub).nodes = sub.nodes ++ a :: front.nodes := rfl

theorem mem_nodes_snoc : b ∈ (snoc front a sub).nodes ↔ b ∈ sub.nodes ∨ b = a ∨ b ∈ front.nodes := by
  rw [nodes_snoc, List.mem_append, List.mem_cons]

theorem roots_subset_nodes (h : a ∈ f.roots) : a ∈ f.nodes := by
  induction f with
  | nil => exact h
  | snoc front b sub ihf _ =>
    rw [mem_nodes_snoc]
    rcases List.mem_append.mp h with h | h
    · exact .inr (.inr (ihf h))
    · exact .inr (.inl (List.mem_singleton.mp h))

theorem eq_nil_of_roots (h : f.roots = []) : f = nil := by
  cases f with
  | nil => rfl
  | snoc front a sub => exact absurd h (List.append_ne_nil_of_right_ne_nil _ (List.cons_ne_nil _ _))

/-- Distinct labels: those of the subtrees, the root, and those of the trees in front are apart. -/
theorem nodup_snoc : (snoc front a sub).nodes.Nodup ↔
    sub.nodes.Nodup ∧ front.nodes.Nodup ∧ a ∉ sub.nodes ∧ a ∉ front.nodes ∧ ∀ b ∈ sub.nodes, b ∉ front.nodes := by
  rw [nodes_snoc, List.nodup_append, List.nodup_cons]
  constructor
  · rintro ⟨hsub, ⟨ha, hfront⟩, hdisj⟩
    exact ⟨hsub, hfront, fun h => hdisj a h a List.mem_cons_self rfl, ha,
      fun b hb hb' => hdisj b hb b (List.mem_cons_of_mem _ hb') rfl⟩
  · rintro ⟨hsub, hfront, hasub, ha, hdisj⟩
    refine ⟨hsub, ⟨ha, hfront⟩, ?_⟩
    rintro b hb c hc rfl
    rcases List.mem_cons.mp hc with rfl | hc
    · exact hasub hb
    · exact hdisj b hb hc

theorem nodup_roots (h : f.nodes.Nodup) : f.roots.Nodup := by
  induction f with
  | nil => exact .nil
  | snoc front a sub ihf _ =>
    obtain ⟨-, hfront, -, ha, -⟩ := nodup_snoc.mp h
    rw [roots_snoc, List.nodup_append]
    refine ⟨ihf hfront, List.nodup_singleton a, ?_⟩
    rintro b hb c hc rfl
    rw [List.mem_singleton.mp hc] at hb
    exact ha (roots_subset_nodes hb)

section Edit

variable [DecidableEq α]

/-- The forest of the subtrees of a label. -/
def under (a : α) : Forest α → Forest α
  | nil => nil
  | snoc front b sub => if b = a then sub else if a ∈ sub.nodes then sub.under a else front.under a

/-- Cut out the tree at a label. -/
def remove (a : α) : Forest α → Forest α
  | nil => nil
  | snoc front b sub => if b = a then front.remove a else snoc (front.remove a) b (sub.remove a)

/-- Add a label behind the subtrees of `p`. -/
def insert (p a : α) : Forest α → Forest α
  | nil => nil
  | snoc front b sub =>
    snoc (front.insert p a) b (if b = p then snoc (sub.insert p a) a nil else sub.insert p a)

theorem remove_snoc : (snoc front b sub).remove a =
    if b = a then front.remove a else snoc (front.remove a) b (sub.remove a) := rfl

theorem under_snoc : (snoc front b sub).under a =
    if b = a then sub else if a ∈ sub.nodes then sub.under a else front.under a := rfl

theorem nodes_under_sublist (a : α) (f : Forest α) : (f.under a).nodes.Sublist f.nodes := by
  induction f with
  | nil => exact .slnil
  | snoc front b sub ihf ihs =>
    rw [under_snoc]
    split
    · exact List.sublist_append_left _ _
    · split
      · exact ihs.trans (List.sublist_append_left _ _)
      · exact ihf.trans ((List.sublist_cons_self _ _).trans (List.sublist_append_right _ _))

theorem nodes_remove_sublist (a : α) (f : Forest α) : (f.remove a).nodes.Sublist f.nodes := by
  induction f with
  | nil => exact .slnil
  | snoc front b sub ihf ihs =>
    rw [remove_snoc]
    split
    · exact ihf.trans ((List.sublist_cons_self _ _).trans (List.sublist_append_right _ _))
    · exact ihs.append (ihf.cons_cons b)

/-- A label that is not there. -/
theorem remove_of_notMem (h : a ∉ f.nodes) : f.remove a = f := by
  induction f with
  | nil => rfl
  | snoc front b sub ihf ihs =>
    rw [mem_nodes_snoc, not_or, not_or] at h
    obtain ⟨hsub, hb, hfront⟩ := h
    rw [remove, if_neg (Ne.symm hb), ihf hfront, ihs hsub]

theorem roots_remove (f : Forest α) (a : α) : (f.remove a).roots = f.roots.filter fun b => b ≠ a := by
  induction f with
  | nil => rfl
  | snoc front b sub ihf _ =>
    rw [remove_snoc, roots_snoc, List.filter_append, ← ihf]
    by_cases hb : b = a
    · rw [if_pos hb]
      simp [hb]
    · rw [if_neg hb]
      simp [hb]

/-- The labels that stay are those outside the tree that is cut out. -/
theorem mem_remove (h : f.nodes.Nodup) : b ∈ (f.remove a).nodes ↔ b ∈ f.nodes ∧ b ≠ a ∧ b ∉ (f.under a).nodes := by
  induction f with
  | nil => exact ⟨fun hb => absurd hb List.not_mem_nil, fun hb => hb.1⟩
  | snoc front c sub ihf ihs =>
    obtain ⟨hsub, hfront, hcsub, hcfront, hdisj⟩ := nodup_snoc.mp h
    rw [remove_snoc, under_snoc]
    by_cases hca : c = a
    · subst hca
      rw [if_pos rfl, if_pos rfl, remove_of_notMem hcfront, mem_nodes_snoc]
      constructor
      · intro hb
        exact ⟨.inr (.inr hb), fun hbc => hcfront (hbc ▸ hb), fun hb' => hdisj b hb' hb⟩
      · rintro ⟨hb | rfl | hb, hne, hnot⟩
        · exact absurd hb hnot
        · exact absurd rfl hne
        · exact hb
    · rw [if_neg hca, if_neg hca, mem_nodes_snoc, mem_nodes_snoc]
      by_cases hmem : a ∈ sub.nodes
      · have hafront : a ∉ front.nodes := hdisj a hmem
        rw [if_pos hmem, remove_of_notMem hafront, ihs hsub]
        have hunder : ∀ d ∈ (sub.under a).nodes, d ∈ sub.nodes := fun d hd =>
          (nodes_under_sublist a sub).subset hd
        constructor
        · rintro (⟨hb, hne, hnot⟩ | rfl | hb)
          · exact ⟨.inl hb, hne, hnot⟩
          · exact ⟨.inr (.inl rfl), hca, fun hb => hcsub (hunder _ hb)⟩
          · exact ⟨.inr (.inr hb), fun hba => hafront (hba ▸ hb), fun hb' => hdisj b (hunder b hb') hb⟩
        · rintro ⟨hb | rfl | hb, hne, hnot⟩
          · exact .inl ⟨hb, hne, hnot⟩
          · exact .inr (.inl rfl)
          · exact .inr (.inr hb)
      · rw [if_neg hmem, remove_of_notMem hmem, ihf hfront]
        have hunder : ∀ d ∈ (front.under a).nodes, d ∈ front.nodes := fun d hd =>
          (nodes_under_sublist a front).subset hd
        constructor
        · rintro (hb | rfl | ⟨hb, hne, hnot⟩)
          · exact ⟨.inl hb, fun hba => hmem (hba ▸ hb), fun hb' => hdisj b hb (hunder b hb')⟩
          · exact ⟨.inr (.inl rfl), hca, fun hb => hcfront (hunder _ hb)⟩
          · exact ⟨.inr (.inr hb), hne, hnot⟩
        · rintro ⟨hb | rfl | hb, hne, hnot⟩
          · exact .inl hb
          · exact .inr (.inl rfl)
          · exact .inr (.inr ⟨hb, hne, hnot⟩)

/-- The label itself is not under itself. -/
theorem notMem_under_self (h : f.nodes.Nodup) (ha : a ∈ f.nodes) : a ∉ (f.under a).nodes := by
  induction f with
  | nil => exact absurd ha List.not_mem_nil
  | snoc front c sub ihf ihs =>
    obtain ⟨hsub, hfront, hcsub, -, -⟩ := nodup_snoc.mp h
    rw [under_snoc]
    split
    · rename_i hca
      exact hca ▸ hcsub
    · rename_i hca
      split
      · rename_i hmem
        exact ihs hsub hmem
      · rename_i hmem
        rcases mem_nodes_snoc.mp ha with hs | rfl | hf
        · exact absurd hs hmem
        · exact absurd rfl hca
        · exact ihf hfront hf

theorem insert_snoc : (snoc front b sub).insert p a =
    snoc (front.insert p a) b (if b = p then snoc (sub.insert p a) a nil else sub.insert p a) := rfl

theorem roots_insert (f : Forest α) (p a : α) : (f.insert p a).roots = f.roots := by
  induction f with
  | nil => rfl
  | snoc front b sub ihf _ => rw [insert_snoc, roots_snoc, roots_snoc, ihf]

theorem insert_of_notMem (h : p ∉ f.nodes) : f.insert p a = f := by
  induction f with
  | nil => rfl
  | snoc front b sub ihf ihs =>
    rw [mem_nodes_snoc, not_or, not_or] at h
    obtain ⟨hsub, hb, hfront⟩ := h
    rw [insert_snoc, if_neg (Ne.symm hb), ihf hfront, ihs hsub]

/-- The labels of distinct trees and the new one. -/
theorem perm_insert (h : f.nodes.Nodup) (hp : p ∈ f.nodes) : (f.insert p a).nodes.Perm (a :: f.nodes) := by
  induction f with
  | nil => exact absurd hp List.not_mem_nil
  | snoc front b sub ihf ihs =>
    obtain ⟨hsub, hfront, hbsub, hbfront, hdisj⟩ := nodup_snoc.mp h
    rw [insert_snoc]
    by_cases hbp : b = p
    · subst hbp
      rw [if_pos rfl, insert_of_notMem hbfront, insert_of_notMem hbsub]
      exact .refl _
    · rw [if_neg hbp]
      rcases mem_nodes_snoc.mp hp with hs | heq | hf
      · rw [insert_of_notMem (hdisj p hs)]
        exact (ihs hsub hs).append_right _
      · exact absurd heq.symm hbp
      · have hps : p ∉ sub.nodes := fun hs => hdisj p hs hf
        rw [insert_of_notMem hps]
        have htail : (b :: (front.insert p a).nodes).Perm (a :: b :: front.nodes) :=
          ((ihf hfront hf).cons b).trans (.swap a b front.nodes)
        exact (htail.append_left sub.nodes).trans List.perm_middle

end Edit

end Forest
