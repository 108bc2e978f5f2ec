import BofStd.Proofs.AvlInsertProofs

/-!
# `BofAvlNode`: deleting

`Removed` says what a call of `Delete` has done to the tree below its pointer: one of its nodes is now
the first of the free ones. A node with at most one child is replaced by it (`deleteNode_few`); a node
with two gets the record of the first node of its right subtree, and that node is removed
(`deleteNode_outermost`). Both are carried up one level at a time by `Removed.level`.
-/

namespace BofStd.AvlTree

open WhichAvlSubTree BinaryTree

variable {ρ K : Type} [LinearOrder K] {compare : Nat → ρ → ρ → BofCmp} {key : ρ → K}
  {t t' t₁ t₂ : AvlTree ρ} {p q f : Nat} {d : WhichAvlSubTree} {par ptr : Option Nat} {x y z : ρ}
  {T T' a a' b : BinaryTree (Nat × ρ)} {ch : Int}

/-! ## One level of the tree -/

/-- After the subtree on the side `d`, which was as high as `h`, has shrunk by `ch`. -/
theorem afterDelete_spec {h : Nat} (hch : ch = 0 ∨ ch = 1) (hd : d ≠ parentSubTree)
    (htree : Represents (t.setBalance p (t.balance p - -sign d * ch)) par (some p)
      (join (isMirror d) a' (p, y) b))
    (hnd : (ids (join (isMirror d) a' (p, y) b)).Nodup) (ha' : a'.IsAvl) (hb : b.IsAvl)
    (hab : h ≤ b.height + 1) (hba : b.height ≤ h + 1) (hheight : (a'.height : Int) + ch = h) :
    ∃ t' root T' ch', t.afterDelete p (-sign d * ch) = some (t', root, ch') ∧
      Rotated (t.setBalance p (t.balance p - -sign d * ch)) (join (isMirror d) a' (p, y) b) par
        t' root T' ∧
      T'.IsAvl ∧ T'.inorder = (join (isMirror d) a' (p, y) b).inorder ∧ (ch' = 0 ∨ ch' = 1) ∧
      (T'.height : Int) + ch' = max h b.height + 1 := by
  obtain ⟨-, -, -, hbal, -, -⟩ := (represents_join hd).mp htree
  have hsign : sign d = 1 ∨ sign d = -1 := by
    unfold sign
    split
    · exact Or.inl rfl
    · exact Or.inr rfl
  unfold afterDelete
  dsimp only
  rcases hch with rfl | rfl
  · -- the height of the subtree is the same
    rw [if_neg (by simp)]
    refine ⟨_, p, _, 0, rfl, ⟨htree, SameOutside.refl, rfl⟩, ?_, rfl, Or.inl rfl, ?_⟩
    · rw [isAvl_join]
      exact ⟨ha', hb, by omega, by omega⟩
    · rw [height_join]
      omega
  · rw [if_pos (by omega)]
    by_cases hzero : (t.setBalance p (t.balance p - -sign d * 1)).balance p ≠ 0
    · rw [if_pos hzero]
      obtain ⟨t', root, T', hc, heq, hrot, havl, hin, hc01, hT'⟩ :=
        reBalance_join htree hnd ha' hb (by omega) (by omega)
      refine ⟨t', root, T', hc, heq, hrot, havl, hin, hc01, ?_⟩
      rw [hbal] at hzero
      have hne : ((b.height : Int) - a'.height) ≠ 0 := fun h0 => hzero (by rw [h0, Int.mul_zero])
      rw [hT', height_join]
      omega
    · rw [if_neg hzero]
      have heq : (b.height : Int) = a'.height := by
        rw [not_not, hbal] at hzero
        rcases hsign with hs | hs <;> rw [hs] at hzero <;> omega
      refine ⟨_, p, _, 1, rfl, ⟨htree, SameOutside.refl, rfl⟩, ?_, rfl, Or.inr rfl, ?_⟩
      · rw [isAvl_join]
        exact ⟨ha', hb, by omega, by omega⟩
      · rw [height_join]
        omega

/-- The node `f` of the tree `T` has become the first free node, and the tree has become `T'`. -/
structure Removed (t : AvlTree ρ) (T : BinaryTree (Nat × ρ)) (par : Option Nat) (t' : AvlTree ρ)
    (ptr : Option Nat) (T' : BinaryTree (Nat × ρ)) (ch : Int) (f : Nat) : Prop where
  tree : Represents t' par ptr T'
  balanced : T'.IsAvl
  change : ch = 0 ∨ ch = 1
  height : (T'.height : Int) + ch = T.height
  nodes : (ids T).Perm (f :: ids T')
  same : SameOutside (ids T) t t'
  free : t'.mpNextRamDbFreeNode = some f
  link : t'.subTree f parentSubTree = t.mpNextRamDbFreeNode

/-- What holds at a node after a node has been removed from its subtree on the side `d`. The record of
the node may have been replaced by `z`. -/
theorem Removed.level (hd : d ≠ parentSubTree)
    (h : Represents t par (some p) (join (isMirror d) a (p, y) b))
    (hnd : (ids (join (isMirror d) a (p, y) b)).Nodup) (havl : (join (isMirror d) a (p, y) b).IsAvl)
    (hrec : Removed t a (some p) t₁ ptr a' ch f) (hnew : SameOutside [p] t₁ t₂)
    (hdata : t₂.data p = some z) (hpar : t₂.subTree p parentSubTree = t₁.subTree p parentSubTree)
    (hptr : t₂.subTree p d = ptr) (hother : t₂.subTree p d.opposite = t₁.subTree p d.opposite)
    (hbal : t₂.balance p = t₁.balance p) (hfree : t₂.mpNextRamDbFreeNode = t₁.mpNextRamDbFreeNode) :
    ∃ t' root T' ch', t₂.afterDelete p (-sign d * ch) = some (t', root, ch') ∧
      Removed t (join (isMirror d) a (p, y) b) par t' (some root) T' ch' f ∧
      T'.inorder = (join (isMirror d) a' (p, z) b).inorder := by
  obtain ⟨-, -, -, hbalp, -, -⟩ := (represents_join hd).mp h
  rw [nodup_ids_join] at hnd
  obtain ⟨hnda, hndb, hpa, hpb, hab⟩ := hnd
  rw [isAvl_join] at havl
  obtain ⟨-, hbavl, hle, hle'⟩ := havl
  have hnd' := hrec.nodes.nodup_iff.mp hnda
  rw [List.nodup_cons] at hnd'
  have hsub : ∀ i ∈ ids a', i ∈ ids a := fun i hi =>
    hrec.nodes.mem_iff.mpr (List.mem_cons_of_mem _ hi)
  have hfa : f ∈ ids a := hrec.nodes.mem_iff.mpr List.mem_cons_self
  have hpf : f ≠ p := fun heq => hpa (heq ▸ hfa)
  have hfb : f ∉ ids b := fun hmem => hab hfa hmem
  have hpa' : p ∉ ids a' := fun hmem => hpa (hsub p hmem)
  have hbS : ∀ i ∈ ids b, i ∉ ids a ∧ i ≠ p := fun i hi =>
    ⟨fun hmem => hab hmem hi, fun heq => hpb (heq ▸ hi)⟩
  have hz : t₂.balance p - -sign d * ch = sign d * ((b.height : Int) - a'.height) := by
    have hheight := hrec.height
    rw [hbal, hrec.same.balance hpa, hbalp]
    unfold sign
    split <;> omega
  have htree : Represents (t₂.setBalance p (t₂.balance p - -sign d * ch)) par (some p)
      (join (isMirror d) a' (p, z) b) := by
    refine h.replace hd hrec.same hpa hbS hrec.tree hpa' (hnew.setBalance List.mem_cons_self _)
      ?_ ?_ ?_ ?_ ?_
    · rw [data_setBalance, hdata]
    · rw [subTree_setBalance, hpar]
    · rw [subTree_setBalance, hptr]
    · rw [subTree_setBalance, hother]
    · rw [balance_setBalance, if_pos rfl, hz]
  have hndj : (ids (join (isMirror d) a' (p, z) b)).Nodup := by
    rw [nodup_ids_join]
    exact ⟨hnd'.2, hndb, hpa', hpb, fun i hi hib => hab (hsub i hi) hib⟩
  obtain ⟨t', root, T', ch', heq, hrot, havl', hin, hch', hT'⟩ :=
    afterDelete_spec hrec.change hd htree hndj hrec.balanced hbavl hle hle' hrec.height
  have hfj : f ∉ ids (join (isMirror d) a' (p, z) b) := by
    rw [mem_ids_join, not_or, not_or]
    exact ⟨hpf, hnd'.1, hfb⟩
  refine ⟨t', root, T', ch', heq, ⟨hrot.tree, havl', hch', ?_, ?_, ?_, ?_, ?_⟩, hin⟩
  · rw [hT', height_join]
    rfl
  · have hids : ids T' = ids (join (isMirror d) a' (p, z) b) := by rw [ids, hin, ids]
    rw [hids, List.perm_ext_iff_of_nodup
      (nodup_ids_join.mpr ⟨hnda, hndb, hpa, hpb, hab⟩) (List.nodup_cons.mpr ⟨hfj, hndj⟩)]
    intro i
    rw [List.mem_cons, mem_ids_join, mem_ids_join, hrec.nodes.mem_iff, List.mem_cons]
    tauto
  · have hp : p ∈ ids (join (isMirror d) a (p, y) b) := mem_ids_join.mpr (Or.inl rfl)
    have hle₁ : SameOutside (ids (join (isMirror d) a (p, y) b)) t t₁ :=
      hrec.same.mono fun i hi => mem_ids_join.mpr (Or.inr (Or.inl hi))
    have hle₂ : SameOutside (ids (join (isMirror d) a (p, y) b)) t₁ t₂ :=
      hnew.mono fun i hi => List.mem_singleton.mp hi ▸ hp
    refine ((hle₁.trans hle₂).setBalance hp _).trans (hrot.same.mono fun i hi => ?_)
    rcases mem_ids_join.mp hi with rfl | hi | hi
    · exact hp
    · exact mem_ids_join.mpr (Or.inr (Or.inl (hsub i hi)))
    · exact mem_ids_join.mpr (Or.inr (Or.inr hi))
  · rw [hrot.free, free_setBalance, hfree, hrec.free]
  · rw [hrot.same.subTree hfj, subTree_setBalance,
      hnew.subTree fun hmem => hpf (List.mem_singleton.mp hmem), hrec.link]

/-! ## The node found -/

theorem sameOutside_setNextFreeNode : SameOutside [p] t (t.setNextFreeNode p) := by
  have hset : SameOutside [p] t (t.setSubTree p parentSubTree t.mpNextRamDbFreeNode) :=
    SameOutside.refl.setSubTree List.mem_cons_self _
  exact ⟨hset.nodes, rfl, rfl, rfl, rfl⟩

/-- A node without children is freed. -/
theorem removed_leaf :
    Removed t (node (p, y) nil nil) par (t.setNextFreeNode p) none nil 1 p := by
  refine ⟨rfl, trivial, Or.inr rfl, by simp, by simp, sameOutside_setNextFreeNode, rfl, ?_⟩
  show (t.setSubTree p parentSubTree t.mpNextRamDbFreeNode).subTree p parentSubTree = _
  simp

/-- A node with one child is freed, and the child takes its place. -/
theorem removed_child {m : Bool} (hpq : p ≠ q)
    (h : Represents t (some p) (some q) (node (q, z) nil nil))
    (hpar : t.subTree p parentSubTree = par) :
    Removed t (join m nil (p, y) (node (q, z) nil nil)) par (t.replaceByChild p q) (some q)
      (node (q, z) nil nil) 1 p := by
  obtain ⟨-, hz, -, hbal, -, -⟩ := represents_node.mp h
  have hfreed : ∀ i e, (t.setNextFreeNode p).subTree i e =
      (t.setSubTree p parentSubTree t.mpNextRamDbFreeNode).subTree i e := fun _ _ => rfl
  have hids : ids (join m nil (p, y) (node (q, z) nil nil)) = if m then [q, p] else [p, q] := by
    cases m <;> rfl
  have hp : p ∈ ids (join m nil (p, y) (node (q, z) nil nil)) := mem_ids_join.mpr (Or.inl rfl)
  have hq : q ∈ ids (join m nil (p, y) (node (q, z) nil nil)) :=
    mem_ids_join.mpr (Or.inr (Or.inr (by simp)))
  refine ⟨?_, ⟨trivial, trivial, by simp, by simp⟩, Or.inr rfl, ?_, ?_, ?_, rfl, ?_⟩
  · rw [represents_node, represents_nil, represents_nil]
    unfold replaceByChild
    simp only [data_setSubTree, balance_setSubTree, subTree_setSubTree, reduceCtorEq, and_false,
      and_self, if_true, if_false]
    refine ⟨trivial, ?_, hpar, ?_, trivial⟩
    · show (t.setSubTree p parentSubTree t.mpNextRamDbFreeNode).data q = _
      rw [data_setSubTree, hz]
    · show (t.setSubTree p parentSubTree t.mpNextRamDbFreeNode).balance q = _
      rw [balance_setSubTree, hbal]
  · rw [height_join]
    simp
  · rw [hids]
    cases m with
    | false => exact List.Perm.refl _
    | true => exact List.Perm.swap _ _ _
  · unfold replaceByChild
    refine SameOutside.setSubTree (SameOutside.setSubTree (SameOutside.setSubTree
      (sameOutside_setNextFreeNode.mono ?_) hq _) hq _) hq _
    intro i hi
    exact List.mem_singleton.mp hi ▸ hp
  · unfold replaceByChild
    simp only [subTree_setSubTree, hpq, false_and, if_false, hfreed, and_self, if_true]

/-- `Delete` at a node with at most one child that is the one to delete. -/
theorem deleteNode_few (fuel : Nat) {cmp : BofCmp} {l r : BinaryTree (Nat × ρ)}
    (h : Represents t par (some p) (node (p, y) l r)) (hnd : (ids (node (p, y) l r)).Nodup)
    (havl : (node (p, y) l r).IsAvl) (hcmp : t.compareNode compare p x cmp = .equal)
    (hfew : l = nil ∨ r = nil) :
    ∃ t' ptr T', deleteNode compare (fuel + 1) t x (some p) cmp = some (t', ptr, some y, 1) ∧
      Removed t (node (p, y) l r) par t' ptr T' 1 p ∧ T'.inorder = l.inorder ++ r.inorder := by
  obtain ⟨-, hy, hpar, -, hl, hr⟩ := represents_node.mp h
  obtain ⟨-, -, hle, hle'⟩ := havl
  rw [deleteNode]
  dsimp only
  rw [hcmp, if_neg (by simp), hy]
  cases l with
  | nil =>
    cases r with
    | nil =>
      rw [represents_nil.mp hl, represents_nil.mp hr]
      exact ⟨_, none, nil, rfl, removed_leaf, rfl⟩
    | node n r₁ r₂ =>
      obtain ⟨q, z⟩ := n
      obtain ⟨rfl, rfl⟩ := subtrees_nil hle'
      have hq := (represents_node.mp hr).1
      have hpq : p ≠ q := by
        rintro rfl
        simp at hnd
      rw [hq] at hr
      rw [represents_nil.mp hl, hq]
      exact ⟨_, some q, node (q, z) nil nil, rfl, removed_child (m := false) hpq hr hpar, rfl⟩
  | node n l₁ l₂ =>
    obtain ⟨q, z⟩ := n
    obtain rfl : r = nil := hfew.resolve_left (by simp)
    obtain ⟨rfl, rfl⟩ := subtrees_nil hle
    have hq := (represents_node.mp hl).1
    have hpq : p ≠ q := by
      rintro rfl
      simp at hnd
    rw [hq] at hl
    rw [represents_nil.mp hr, hq]
    exact ⟨_, some q, node (q, z) nil nil, rfl, removed_child (m := true) hpq hl hpar, rfl⟩

/-- `Delete` at a node with no child on one side that is the one to delete. -/
theorem deleteNode_near_nil (fuel : Nat) {cmp : BofCmp} {m : Bool}
    (h : Represents t par (some p) (join m nil (p, y) b)) (hnd : (ids (join m nil (p, y) b)).Nodup)
    (havl : (join m nil (p, y) b).IsAvl) (hcmp : t.compareNode compare p x cmp = .equal) :
    ∃ t' ptr T', deleteNode compare (fuel + 1) t x (some p) cmp = some (t', ptr, some y, 1) ∧
      Removed t (join m nil (p, y) b) par t' ptr T' 1 p ∧ T'.inorder = b.inorder := by
  cases m with
  | false => exact deleteNode_few fuel h hnd havl hcmp (Or.inl rfl)
  | true =>
    obtain ⟨t', ptr, T', heq, hrem, hin⟩ := deleteNode_few fuel h hnd havl hcmp (Or.inr rfl)
    rw [inorder_nil, List.append_nil] at hin
    exact ⟨t', ptr, T', heq, hrem, hin⟩

/-- `Delete` at a node that is not the one to delete. -/
theorem deleteNode_descend {c cmp : BofCmp} {fuel : Nat} (hc : t.compareNode compare p x cmp = c)
    (hne : c ≠ .equal) {rts : Option ρ}
    (hrec : deleteNode compare fuel t x (t.subTree p (direction c)) cmp = some (t₁, ptr, rts, ch)) :
    deleteNode compare (fuel + 1) t x (some p) cmp =
      if rts.isSome then
        ((t₁.setSubTree p (direction c) ptr).afterDelete p (c.toInt * ch)).map
          fun (t', root, ch') => (t', some root, rts, ch')
      else some (t₁.setSubTree p (direction c) ptr, some p, rts, ch) := by
  rw [deleteNode]
  dsimp only
  rw [hc, if_pos hne, hrec]
  by_cases hsome : rts.isSome
  · simp [hsome, Option.map_eq_bind]
  · simp [hsome]

/-- The node whose subtree on the side `d` has changed gets the new link. -/
theorem Removed.link_level (hd : d ≠ parentSubTree)
    (h : Represents t par (some p) (join (isMirror d) a (p, y) b))
    (hnd : (ids (join (isMirror d) a (p, y) b)).Nodup) (havl : (join (isMirror d) a (p, y) b).IsAvl)
    (hrec : Removed t a (some p) t₁ ptr a' ch f) :
    ∃ t' root T' ch', (t₁.setSubTree p d ptr).afterDelete p (-sign d * ch) = some (t', root, ch') ∧
      Removed t (join (isMirror d) a (p, y) b) par t' (some root) T' ch' f ∧
      T'.inorder = (join (isMirror d) a' (p, y) b).inorder := by
  have hpa := (nodup_ids_join.mp hnd).2.2.1
  refine Removed.level hd h hnd havl hrec (SameOutside.refl.setSubTree List.mem_cons_self _)
    ?_ ?_ ?_ ?_ ?_ rfl
  · rw [data_setSubTree, hrec.same.data hpa]
    exact ((represents_join hd).mp h).2.1
  · simp [hd.symm]
  · simp
  · simp [opposite_ne]
  · simp

/-! ## The outermost node -/

/-- What a node answers to a node below it on the side `e`. -/
def wanted (e : WhichAvlSubTree) : BofCmp := if e = leftSubTree then .less else .greater

theorem direction_wanted (hd : d ≠ parentSubTree) : direction (wanted d) = d := by
  cases d with
  | leftSubTree => rfl
  | rightSubTree => rfl
  | parentSubTree => exact absurd rfl hd

theorem toInt_wanted : (wanted d).toInt = -sign d := by
  unfold wanted sign
  split <;> rfl

/-- Asked for the outermost node, a node says whether it is the one. -/
theorem compareNode_wanted (compare : Nat → ρ → ρ → BofCmp) (x : ρ) (hd : d ≠ parentSubTree) :
    t.compareNode compare p x (wanted d) = if t.subTree p d = none then .equal else wanted d := by
  cases d with
  | leftSubTree => rfl
  | rightSubTree => rfl
  | parentSubTree => exact absurd rfl hd

/-- `Delete` with `BOF_CMP_LESS` removes the first node and returns its record; with `BOF_CMP_GREATER`
it removes the last one. -/
theorem deleteNode_outermost (compare : Nat → ρ → ρ → BofCmp) (x : ρ) (hd : d ≠ parentSubTree) {fuel : Nat}
    (hfuel : T.height < fuel) (h : Represents t par ptr T) (hnd : (ids T).Nodup) (havl : T.IsAvl)
    (hne : T ≠ nil) :
    ∃ t' ptr' T' ch n, deleteNode compare fuel t x ptr (wanted d) = some (t', ptr', some n.2, ch) ∧
      Removed t T par t' ptr' T' ch n.1 ∧
      T.inorderFrom (isMirror d) = n :: T'.inorderFrom (isMirror d) := by
  induction T using join_induction (isMirror d) generalizing fuel par ptr with
  | nil => exact absurd rfl hne
  | join a m b iha ihb =>
    obtain ⟨p, y⟩ := m
    obtain ⟨fuel, rfl⟩ := Nat.exists_eq_succ_of_ne_zero (Nat.ne_of_gt (Nat.zero_lt_of_lt hfuel))
    obtain ⟨hptr, -, -, -, ha, -⟩ := (represents_join hd).mp h
    subst hptr
    have hcmp := compareNode_wanted (t := t) (p := p) compare x hd
    by_cases hnil : a = nil
    · subst hnil
      rw [if_pos (represents_nil.mp ha)] at hcmp
      obtain ⟨t', ptr', T', heq, hrem, hin⟩ := deleteNode_near_nil fuel h hnd havl hcmp
      refine ⟨t', ptr', T', 1, (p, y), heq, hrem, ?_⟩
      rw [inorderFrom_join, inorderFrom_nil, List.nil_append, inorderFrom, inorderFrom, hin]
    · rw [if_neg fun hnone => hnil (by rw [hnone] at ha; exact ha.eq_nil)] at hcmp
      rw [height_join] at hfuel
      obtain ⟨hnda, -, -, -, -⟩ := nodup_ids_join.mp hnd
      obtain ⟨t₁, ptr₁, a', ch, n, heq, hrem, hin⟩ :=
        iha (show a.height < fuel by omega) ha hnda (isAvl_join.mp havl).1 hnil
      obtain ⟨t', root, T', ch', hafter, hlevel, hin'⟩ := hrem.link_level hd h hnd havl
      refine ⟨t', some root, T', ch', n, ?_, hlevel, ?_⟩
      · have hne' : wanted d ≠ .equal := by
          unfold wanted
          split <;> decide
        rw [deleteNode_descend hcmp hne' (by rw [direction_wanted hd]; exact heq),
          if_pos Option.isSome_some, direction_wanted hd, toInt_wanted]
        exact congrArg _ hafter
      · have hin'' : T'.inorderFrom (isMirror d) = (join (isMirror d) a' (p, y) b).inorderFrom (isMirror d) := by
          rw [inorderFrom, inorderFrom, hin']
        rw [hin'', inorderFrom_join, inorderFrom_join, hin, List.cons_append]

/-! ## A key -/

/-- `Delete` at a node with two children that is the one to delete. -/
theorem deleteNode_two {fuel i j : Nat} {cmp : BofCmp} (hc : t.compareNode compare p x cmp = .equal)
    (hl : t.subTree p leftSubTree = some i) (hr : t.subTree p rightSubTree = some j)
    {successor : Option ρ}
    (hrec : deleteNode compare fuel t x (some j) .less = some (t₁, ptr, successor, ch)) :
    deleteNode compare (fuel + 1) t x (some p) cmp =
      ((((t₁.setSubTree p rightSubTree ptr).setData p successor).setSubTree p parentSubTree
        (t.subTree p parentSubTree)).afterDelete p ch).map
          fun (t', root, ch') => (t', some root, t.data p, ch') := by
  rw [deleteNode]
  dsimp only
  rw [hc, if_neg (by simp), hl, hr]
  simp [hrec, Option.map_eq_bind]

/-- The nodes after the node of the record with the key has been removed, or has got the record of the
next node, which has been removed. -/
def RemovedFrom (n : Nat × ρ) (f : Nat) (T T' : BinaryTree (Nat × ρ)) : Prop :=
  ∃ l₁ l₂, T.inorder = l₁ ++ n :: l₂ ∧
    ((f = n.1 ∧ T'.inorder = l₁ ++ l₂) ∨
      ∃ z l₃, l₂ = (f, z) :: l₃ ∧ T'.inorder = l₁ ++ (n.1, z) :: l₃)

theorem RemovedFrom.extend {n : Nat × ρ} (h : RemovedFrom n f a a') {l r : List (Nat × ρ)}
    (hT : T.inorder = l ++ a.inorder ++ r) (hT' : T'.inorder = l ++ a'.inorder ++ r) :
    RemovedFrom n f T T' := by
  obtain ⟨l₁, l₂, h₁, ⟨hf, h₂⟩ | ⟨z, l₃, h₂, h₃⟩⟩ := h
  · refine ⟨l ++ l₁, l₂ ++ r, ?_, Or.inl ⟨hf, ?_⟩⟩
    · simp [hT, h₁]
    · simp [hT', h₂]
  · refine ⟨l ++ l₁, l₂ ++ r, ?_, Or.inr ⟨z, l₃ ++ r, ?_, ?_⟩⟩
    · simp [hT, h₁]
    · simp [h₂]
    · simp [hT', h₃]

/-- `Delete` at the node to delete, when it has two children: the record of the next node moves here. -/
theorem deleteNode_successor {fuel : Nat} {l r : BinaryTree (Nat × ρ)}
    (hfuel : (node (p, y) l r).height < fuel + 1)
    (h : Represents t par (some p) (node (p, y) l r)) (hnd : (ids (node (p, y) l r)).Nodup)
    (havl : (node (p, y) l r).IsAvl) (hcmp : t.compareNode compare p x .equal = .equal)
    (hl : l ≠ nil) (hr : r ≠ nil) :
    ∃ t' ptr' T' ch f, deleteNode compare (fuel + 1) t x (some p) .equal =
        some (t', ptr', some y, ch) ∧
      Removed t (node (p, y) l r) par t' ptr' T' ch f ∧ RemovedFrom (p, y) f (node (p, y) l r) T' ∧
      t.subTree p leftSubTree ≠ none ∧ t.subTree p rightSubTree ≠ none := by
  obtain ⟨-, hy, -, -, hleft, hright⟩ := represents_node.mp h
  obtain ⟨i, hi⟩ : ∃ i, t.subTree p leftSubTree = some i := by
    obtain ⟨⟨i, u⟩, l₁, l₂, rfl⟩ : ∃ n l₁ l₂, l = node n l₁ l₂ := by
      cases l with
      | nil => exact absurd rfl hl
      | node n l₁ l₂ => exact ⟨n, l₁, l₂, rfl⟩
    exact ⟨i, (represents_node.mp hleft).1⟩
  obtain ⟨j, hj⟩ : ∃ j, t.subTree p rightSubTree = some j := by
    obtain ⟨⟨j, u⟩, r₁, r₂, rfl⟩ : ∃ n r₁ r₂, r = node n r₁ r₂ := by
      cases r with
      | nil => exact absurd rfl hr
      | node n r₁ r₂ => exact ⟨n, r₁, r₂, rfl⟩
    exact ⟨j, (represents_node.mp hright).1⟩
  rw [height] at hfuel
  rw [hj] at hright
  obtain ⟨-, hndr, -, hpr, -⟩ := (nodup_ids_join (m := false)).mp hnd
  obtain ⟨t₁, ptr₁, r', ch, n, heq, hrem, hin⟩ := deleteNode_outermost compare x (d := leftSubTree)
    (by decide) (show r.height < fuel by omega) hright hndr havl.2.1 hr
  have hnew : SameOutside [p] t₁ (((t₁.setSubTree p rightSubTree ptr₁).setData p
      (some n.2)).setSubTree p parentSubTree (t.subTree p parentSubTree)) :=
    ((SameOutside.refl.setSubTree List.mem_cons_self _).setData List.mem_cons_self _).setSubTree
      List.mem_cons_self _
  obtain ⟨t', root, T', ch', hafter, hlevel, hin'⟩ :=
    hrem.level (d := rightSubTree) (z := n.2) (by decide) h hnd
      (isAvl_join.mpr ⟨havl.2.1, havl.1, havl.2.2.2, havl.2.2.1⟩) hnew
      (by simp) (by simp [hrem.same.subTree hpr]) (by simp) (by simp [opposite]) (by simp) rfl
  refine ⟨t', some root, T', ch', n.1, ?_, hlevel, ⟨l.inorder, r.inorder, rfl, Or.inr
    ⟨n.2, r'.inorder, hin, hin'⟩⟩, by simp [hi], by simp [hj]⟩
  rw [deleteNode_two hcmp hi hj heq, hy]
  have hone : -sign rightSubTree * ch = ch := by
    show - -1 * ch = ch
    omega
  rw [hone] at hafter
  exact congrArg _ hafter

/-- `Delete` of a key that is present. Another node than the one found is freed only if that one has two
children. -/
theorem deleteNode_present (hcmp : ComparesBy (compare t.mIndex_U32) key) {fuel : Nat}
    (hfuel : T.height < fuel) (h : Represents t par ptr T) (hnd : (ids T).Nodup) (havl : T.IsAvl)
    (hasc : Ascending key T) {n : Nat × ρ} (hn : n ∈ T.inorder) (hkey : key n.2 = key x) :
    ∃ t' ptr' T' ch f, deleteNode compare fuel t x ptr .equal = some (t', ptr', some n.2, ch) ∧
      Removed t T par t' ptr' T' ch f ∧ RemovedFrom n f T T' ∧
      (f ≠ n.1 → t.subTree n.1 leftSubTree ≠ none ∧ t.subTree n.1 rightSubTree ≠ none) := by
  induction T generalizing fuel par ptr with
  | nil => exact absurd hn List.not_mem_nil
  | node m l r ihl ihr =>
    obtain ⟨p, y⟩ := m
    obtain ⟨fuel, rfl⟩ := Nat.exists_eq_succ_of_ne_zero (Nat.ne_of_gt (Nat.zero_lt_of_lt hfuel))
    obtain ⟨hptr, hy, -, -, hl, hr⟩ := represents_node.mp h
    subst hptr
    obtain ⟨hndl, hndr, -, -, -⟩ := (nodup_ids_join (m := false)).mp hnd
    have hcmp' := compareNode_equal (x := x) hcmp hy
    have hheight := hfuel
    rw [height] at hheight
    rw [inorder_node] at hn
    rcases List.mem_append.mp hn with hn | hn
    · have hlt : key x < key y := hkey ▸ hasc.left_lt n hn
      rw [if_pos hlt] at hcmp'
      obtain ⟨t₁, ptr₁, l', ch, f, heq, hrem, hfrom, htwo⟩ :=
        ihl (show l.height < fuel by omega) hl hndl havl.1 hasc.left hn
      obtain ⟨t', root, T', ch', hafter, hlevel, hin'⟩ :=
        hrem.link_level (d := leftSubTree) (by decide) h hnd havl
      refine ⟨t', some root, T', ch', f, ?_, hlevel, ?_, htwo⟩
      · rw [deleteNode_descend hcmp' (by decide) heq, if_pos Option.isSome_some]
        exact congrArg _ hafter
      · refine hfrom.extend (l := []) (r := (p, y) :: r.inorder) rfl hin'
    · rcases List.mem_cons.mp hn with rfl | hn
      · rw [if_neg (by rw [hkey]; exact lt_irrefl _), if_pos hkey.symm] at hcmp'
        by_cases hfew : l = nil ∨ r = nil
        · obtain ⟨t', ptr', T', heq, hrem, hin⟩ := deleteNode_few fuel h hnd havl hcmp' hfew
          exact ⟨t', ptr', T', 1, p, heq, hrem, ⟨l.inorder, r.inorder, rfl, Or.inl ⟨rfl, hin⟩⟩,
            fun hne => absurd rfl hne⟩
        · rw [not_or] at hfew
          obtain ⟨t', ptr', T', ch, f, heq, hrem, hfrom, htwo⟩ :=
            deleteNode_successor hfuel h hnd havl hcmp' hfew.1 hfew.2
          exact ⟨t', ptr', T', ch, f, heq, hrem, hfrom, fun _ => htwo⟩
      · have hlt : key y < key x := hkey ▸ hasc.lt_right n hn
        rw [if_neg (not_lt_of_gt hlt), if_neg (ne_of_gt hlt)] at hcmp'
        obtain ⟨t₁, ptr₁, r', ch, f, heq, hrem, hfrom, htwo⟩ :=
          ihr (show r.height < fuel by omega) hr hndr havl.2.1 hasc.right hn
        obtain ⟨t', root, T', ch', hafter, hlevel, hin'⟩ :=
          hrem.link_level (d := rightSubTree) (by decide) h hnd
            (isAvl_join.mpr ⟨havl.2.1, havl.1, havl.2.2.2, havl.2.2.1⟩)
        refine ⟨t', some root, T', ch', f, ?_, hlevel, ?_, htwo⟩
        · rw [deleteNode_descend hcmp' (by decide) heq, if_pos Option.isSome_some]
          exact congrArg _ hafter
        · refine hfrom.extend (l := l.inorder ++ [(p, y)]) (r := []) ?_ ?_
          · simp
          · rw [hin', List.append_nil, List.append_assoc]
            rfl

/-- `Delete` of a key that is absent. -/
theorem deleteNode_absent (hcmp : ComparesBy (compare t.mIndex_U32) key) {fuel : Nat}
    (hfuel : T.height < fuel) (h : Represents t par ptr T)
    (hnew : ∀ n ∈ T.inorder, key n.2 ≠ key x) :
    deleteNode compare fuel t x ptr .equal = some (t, ptr, none, 0) := by
  induction T generalizing fuel par ptr with
  | nil =>
    obtain ⟨fuel, rfl⟩ := Nat.exists_eq_succ_of_ne_zero (Nat.ne_of_gt hfuel)
    obtain rfl : ptr = none := represents_nil.mp h
    rw [deleteNode]
  | node m l r ihl ihr =>
    obtain ⟨p, y⟩ := m
    obtain ⟨fuel, rfl⟩ := Nat.exists_eq_succ_of_ne_zero (Nat.ne_of_gt (Nat.zero_lt_of_lt hfuel))
    obtain ⟨hptr, hy, -, -, hl, hr⟩ := represents_node.mp h
    subst hptr
    have hne : key y ≠ key x := hnew (p, y) (by simp)
    have hcmp' := compareNode_equal (x := x) hcmp hy
    rw [height] at hfuel
    rcases lt_or_gt_of_ne hne with hlt | hlt
    · rw [if_neg (not_lt_of_gt hlt), if_neg hne.symm] at hcmp'
      have heq := ihr (show r.height < fuel by omega) hr (fun n hn => hnew n (by simp [hn]))
      rw [deleteNode_descend hcmp' (by decide) heq, if_neg (by simp)]
      exact congrArg (fun t => some (t, _)) setSubTree_self
    · rw [if_pos hlt] at hcmp'
      have heq := ihl (show l.height < fuel by omega) hl (fun n hn => hnew n (by simp [hn]))
      rw [deleteNode_descend hcmp' (by decide) heq, if_neg (by simp)]
      exact congrArg (fun t => some (t, _)) setSubTree_self

end BofStd.AvlTree
