import BofStd.Proofs.AvlRotateProofs

/-!
# `BofAvlNode`: inserting

On the way back from the recursion a node gets its new subtree and its new balance
(`Represents.replace`), and is rebalanced (`afterInsert_spec`). `Inserted` says what a call of `Insert`
with a new key has done to the tree below its pointer; it is shown by induction on that tree, one level
at a time (`Inserted.level`). A key that is present or a lack of free nodes leaves everything as it is.
-/

namespace BofStd.AvlTree

open WhichAvlSubTree BinaryTree

variable {ρ K : Type} [LinearOrder K] {compare : Nat → ρ → ρ → BofCmp} {key : ρ → K}
  {t t' t₁ : AvlTree ρ} {p q f : Nat} {d : WhichAvlSubTree} {par ptr : Option Nat} {x y : ρ}
  {T T' a a' b : BinaryTree (Nat × ρ)} {S : List Nat}

/-! ## One level of the tree -/

theorem Ascending.left_lt {l r : BinaryTree (Nat × ρ)} (h : Ascending key (node (p, y) l r)) :
    ∀ n ∈ l.inorder, key n.2 < key y := by
  intro n hn
  rw [Ascending, records, inorder_node, List.map_append, List.pairwise_append] at h
  exact h.2.2 n.2 (List.mem_map_of_mem hn) y (by simp)

theorem Ascending.lt_right {l r : BinaryTree (Nat × ρ)} (h : Ascending key (node (p, y) l r)) :
    ∀ n ∈ r.inorder, key y < key n.2 := by
  intro n hn
  rw [Ascending, records, inorder_node, List.map_append, List.pairwise_append, List.map_cons,
    List.pairwise_cons] at h
  exact h.2.1.1 n.2 (List.mem_map_of_mem hn)

theorem Ascending.left {n : Nat × ρ} {l r : BinaryTree (Nat × ρ)} (h : Ascending key (node n l r)) :
    Ascending key l := by
  rw [Ascending, records, inorder_node, List.map_append, List.pairwise_append] at h
  exact h.1

theorem Ascending.right {n : Nat × ρ} {l r : BinaryTree (Nat × ρ)} (h : Ascending key (node n l r)) :
    Ascending key r := by
  rw [Ascending, records, inorder_node, List.map_append, List.pairwise_append, List.map_cons,
    List.pairwise_cons] at h
  exact h.2.1.2

theorem compareNode_equal (hcmp : ComparesBy (compare t.mIndex_U32) key) (hy : t.data p = some y) :
    t.compareNode compare p x .equal =
      if key x < key y then .less else if key x = key y then .equal else .greater := by
  rw [compareNode, hy]
  · exact hcmp y x
  · simp
  · simp

/-- Only the node `p` differs, whose subtree on the side `d` has become `a'` and whose record is `z`. -/
theorem Represents.replace {t₂ : AvlTree ρ} {z : ρ} (hd : d ≠ parentSubTree)
    (h : Represents t par (some p) (join (isMirror d) a (p, y) b)) (hsame : SameOutside S t t₁)
    (hp : p ∉ S) (hb : ∀ i ∈ ids b, i ∉ S ∧ i ≠ p) (ha' : Represents t₁ (some p) ptr a')
    (hpa' : p ∉ ids a') (hnew : SameOutside [p] t₁ t₂) (hdata : t₂.data p = some z)
    (hpar : t₂.subTree p parentSubTree = t₁.subTree p parentSubTree) (hptr : t₂.subTree p d = ptr)
    (hother : t₂.subTree p d.opposite = t₁.subTree p d.opposite)
    (hbal : t₂.balance p = sign d * ((b.height : Int) - a'.height)) :
    Represents t₂ par (some p) (join (isMirror d) a' (p, z) b) := by
  obtain ⟨-, -, hpar', -, -, hright⟩ := (represents_join hd).mp h
  rw [represents_join hd, hpar, hptr, hother, hsame.subTree hp, hsame.subTree hp]
  refine ⟨rfl, hdata, hpar', hbal, ?_, ?_⟩
  · refine ha'.of_same hnew fun i hi hmem => ?_
    rw [List.mem_singleton] at hmem
    exact hpa' (hmem ▸ hi)
  · refine (hright.of_same hsame fun i hi => (hb i hi).1).of_same hnew fun i hi hmem => ?_
    exact (hb i hi).2 (List.mem_singleton.mp hmem)

theorem reBalance_join {m : Bool} (h : Represents t par (some p) (join m a (p, y) b))
    (hnd : (ids (join m a (p, y) b)).Nodup) (ha : a.IsAvl) (hb : b.IsAvl)
    (hab : a.height ≤ b.height + 2) (hba : b.height ≤ a.height + 2) :
    RebalancesTo t (join m a (p, y) b) par (t.reBalance p) := by
  cases m with
  | false => exact reBalance_spec h hnd ha hb hab hba
  | true => exact reBalance_spec h hnd hb ha hba hab

/-- After the subtree on the side `d` has grown by `ch`. -/
theorem afterInsert_spec {ch : Int} (hch : ch = 0 ∨ ch = 1) (hd : d ≠ parentSubTree)
    (h : Represents (t.setBalance p (t.balance p + -sign d * ch)) par (some p)
      (join (isMirror d) a' (p, y) b))
    (hnd : (ids (join (isMirror d) a' (p, y) b)).Nodup) (ha' : a'.IsAvl) (hb : b.IsAvl)
    (hab : a.height ≤ b.height + 1) (hba : b.height ≤ a.height + 1)
    (hheight : (a'.height : Int) = a.height + ch) :
    ∃ t' root T' ch', t.afterInsert p (-sign d * ch) = some (t', root, ch') ∧
      Rotated (t.setBalance p (t.balance p + -sign d * ch)) (join (isMirror d) a' (p, y) b) par
        t' root T' ∧
      T'.IsAvl ∧ T'.inorder = (join (isMirror d) a' (p, y) b).inorder ∧ (ch' = 0 ∨ ch' = 1) ∧
      (T'.height : Int) = (join (isMirror d) a (p, y) b).height + ch' := by
  obtain ⟨-, -, -, hbal, -, -⟩ := (represents_join hd).mp h
  have hsign : sign d = 1 ∨ sign d = -1 := by
    unfold sign
    split
    · exact Or.inl rfl
    · exact Or.inr rfl
  unfold afterInsert
  dsimp only
  by_cases hgrow : -sign d * ch ≠ 0 ∧
      (t.setBalance p (t.balance p + -sign d * ch)).balance p ≠ 0
  · rw [if_pos hgrow]
    obtain ⟨t', root, T', hc, heq, hrot, havl, hin, hc01, hT'⟩ :=
      reBalance_join h hnd ha' hb (by omega) (by omega)
    refine ⟨t', root, T', 1 - hc, by rw [heq]; rfl, hrot, havl, hin, by omega, ?_⟩
    rw [hbal] at hgrow
    rw [height_join] at hT' ⊢
    have hne : ((b.height : Int) - a'.height) ≠ 0 := fun h0 => hgrow.2 (by rw [h0, Int.mul_zero])
    have hch1 : ch = 1 := hch.resolve_left fun h0 => hgrow.1 (by rw [h0, Int.mul_zero])
    omega
  · rw [if_neg hgrow]
    have hcases : ch = 0 ∨ (b.height : Int) = a'.height := by
      by_contra hno
      rw [not_or] at hno
      apply hgrow
      rw [hbal]
      rcases hsign with hs | hs <;> rw [hs] <;> omega
    refine ⟨_, p, _, 0, rfl, ⟨h, SameOutside.refl, rfl⟩, ?_, rfl, Or.inl rfl, ?_⟩
    · rw [isAvl_join]
      exact ⟨ha', hb, by omega, by omega⟩
    · rw [height_join, height_join]
      omega

/-! ## A new key -/

/-- The node `f` with the record `x` has been put into the tree `T`, which has become `T'`. -/
structure Inserted (key : ρ → K) (t : AvlTree ρ) (T : BinaryTree (Nat × ρ)) (par : Option Nat)
    (f : Nat) (x : ρ) (t' : AvlTree ρ) (ptr : Option Nat) (T' : BinaryTree (Nat × ρ)) (ch : Int) :
    Prop where
  tree : Represents t' par ptr T'
  balanced : T'.IsAvl
  inorder : ∃ l₁ l₂, T.inorder = l₁ ++ l₂ ∧ T'.inorder = l₁ ++ (f, x) :: l₂ ∧
    (∀ n ∈ l₁, key n.2 < key x) ∧ ∀ n ∈ l₂, key x < key n.2
  change : ch = 0 ∨ ch = 1
  height : (T'.height : Int) = T.height + ch
  same : SameOutside (f :: ids T) t t'
  free : t'.mpNextRamDbFreeNode = t.subTree f parentSubTree

variable {ch : Int}

theorem Inserted.perm_ids (h : Inserted key t T par f x t' ptr T' ch) :
    (ids T').Perm (f :: ids T) := by
  obtain ⟨l₁, l₂, h₁, h₂, -, -⟩ := h.inorder
  rw [ids, ids, h₁, h₂, ← List.map_cons (f := Prod.fst) (a := (f, x))]
  exact List.perm_middle.map _

/-- All the keys on the other side of `b` lie beyond the key of `x`. -/
def Beyond (key : ρ → K) (d : WhichAvlSubTree) (x y : ρ) (b : BinaryTree (Nat × ρ)) : Prop :=
  if d = leftSubTree then key x < key y ∧ ∀ n ∈ b.inorder, key x < key n.2
  else key y < key x ∧ ∀ n ∈ b.inorder, key n.2 < key x

/-- What holds at a node after its subtree on the side `d` has got the new node. -/
theorem Inserted.level (hd : d ≠ parentSubTree)
    (h : Represents t par (some p) (join (isMirror d) a (p, y) b))
    (hnd : (ids (join (isMirror d) a (p, y) b)).Nodup) (havl : (join (isMirror d) a (p, y) b).IsAvl)
    (hf : f ∉ ids (join (isMirror d) a (p, y) b)) (hbeyond : Beyond key d x y b)
    (hrec : Inserted key t a (some p) f x t₁ ptr a' ch) :
    ∃ t' root T' ch', (t₁.setSubTree p d ptr).afterInsert p (-sign d * ch) = some (t', root, ch') ∧
      Inserted key t (join (isMirror d) a (p, y) b) par f x t' (some root) T' ch' := by
  obtain ⟨-, -, -, hbal, -, -⟩ := (represents_join hd).mp h
  rw [nodup_ids_join] at hnd
  obtain ⟨hnda, hndb, hpa, hpb, hab⟩ := hnd
  rw [isAvl_join] at havl
  obtain ⟨-, hbavl, hle, hle'⟩ := havl
  rw [mem_ids_join, not_or, not_or] at hf
  obtain ⟨hfp, hfa, hfb⟩ := hf
  have hmem : ∀ i, i ∈ ids a' ↔ i = f ∨ i ∈ ids a := by
    intro i
    rw [hrec.perm_ids.mem_iff, List.mem_cons]
  have hpa' : p ∉ ids a' := by
    rw [hmem, not_or]
    exact ⟨fun heq => hfp heq.symm, hpa⟩
  have hpS : p ∉ f :: ids a := fun hp => hpa' (hrec.perm_ids.mem_iff.mpr hp)
  have hbS : ∀ i ∈ ids b, i ∉ f :: ids a ∧ i ≠ p := by
    intro i hi
    refine ⟨fun hmem' => ?_, fun heq => hpb (heq ▸ hi)⟩
    rcases List.mem_cons.mp hmem' with rfl | hia
    · exact hfb hi
    · exact hab hia hi
  have hnd' : (ids (join (isMirror d) a' (p, y) b)).Nodup := by
    rw [nodup_ids_join]
    refine ⟨hrec.perm_ids.nodup_iff.mpr (List.nodup_cons.mpr ⟨hfa, hnda⟩), hndb, hpa', hpb, ?_⟩
    intro i hi hib
    exact (hbS i hib).1 (hrec.perm_ids.mem_iff.mp hi)
  have hz : (t₁.setSubTree p d ptr).balance p + -sign d * ch =
      sign d * ((b.height : Int) - a'.height) := by
    rw [balance_setSubTree, hrec.same.balance hpS, hbal, hrec.height]
    unfold sign
    split <;> omega
  have htree : Represents ((t₁.setSubTree p d ptr).setBalance p
      ((t₁.setSubTree p d ptr).balance p + -sign d * ch)) par (some p)
      (join (isMirror d) a' (p, y) b) := by
    refine h.replace hd hrec.same hpS hbS hrec.tree hpa'
      ((SameOutside.refl.setSubTree List.mem_cons_self _).setBalance List.mem_cons_self _) ?_ ?_ ?_ ?_ ?_
    · rw [data_setBalance, data_setSubTree, hrec.same.data hpS]
      exact ((represents_join hd).mp h).2.1
    · simp [hd.symm]
    · simp
    · simp [opposite_ne]
    · rw [balance_setBalance, if_pos rfl, hz]
  obtain ⟨t', root, T', ch', heq, hrot, havl', hin, hch', hT'⟩ :=
    afterInsert_spec hrec.change hd htree hnd' hrec.balanced hbavl hle hle' hrec.height
  refine ⟨t', root, T', ch', heq, hrot.tree, havl', ?_, hch', hT', ?_, ?_⟩
  · obtain ⟨l₁, l₂, h₁, h₂, hlt, hgt⟩ := hrec.inorder
    unfold Beyond at hbeyond
    rw [hin]
    cases d with
    | leftSubTree =>
      obtain ⟨hxy, hxb⟩ := hbeyond
      refine ⟨l₁, l₂ ++ (p, y) :: b.inorder, ?_, ?_, hlt, ?_⟩
      · show (node (p, y) a b).inorder = _
        rw [inorder_node, h₁, List.append_assoc]
      · show (node (p, y) a' b).inorder = _
        rw [inorder_node, h₂, List.append_assoc, List.cons_append]
      · intro n hn
        rcases List.mem_append.mp hn with hn | hn
        · exact hgt n hn
        · rcases List.mem_cons.mp hn with rfl | hn
          · exact hxy
          · exact hxb n hn
    | rightSubTree =>
      obtain ⟨hyx, hbx⟩ := hbeyond
      refine ⟨b.inorder ++ (p, y) :: l₁, l₂, ?_, ?_, ?_, hgt⟩
      · show (node (p, y) b a).inorder = _
        rw [inorder_node, h₁, List.append_assoc, List.cons_append]
      · show (node (p, y) b a').inorder = _
        rw [inorder_node, h₂, List.append_assoc, List.cons_append]
      · intro n hn
        rcases List.mem_append.mp hn with hn | hn
        · exact hbx n hn
        · rcases List.mem_cons.mp hn with rfl | hn
          · exact hyx
          · exact hlt n hn
    | parentSubTree => exact absurd rfl hd
  · have hsub : ∀ i ∈ f :: ids a, i ∈ f :: ids (join (isMirror d) a (p, y) b) := by
      intro i hi
      rcases List.mem_cons.mp hi with rfl | hi
      · exact List.mem_cons_self
      · exact List.mem_cons_of_mem _ (mem_ids_join.mpr (Or.inr (Or.inl hi)))
    have hp : p ∈ f :: ids (join (isMirror d) a (p, y) b) :=
      List.mem_cons_of_mem _ (mem_ids_join.mpr (Or.inl rfl))
    refine (((hrec.same.mono hsub).setSubTree hp _).setBalance hp _).trans (hrot.same.mono ?_)
    intro i hi
    rcases mem_ids_join.mp hi with rfl | hi | hi
    · exact hp
    · exact hsub i (hrec.perm_ids.mem_iff.mp hi)
    · exact List.mem_cons_of_mem _ (mem_ids_join.mpr (Or.inr (Or.inr hi)))
  · rw [hrot.free, free_setBalance, free_setSubTree, hrec.free]

/-- An empty subtree becomes the new node. -/
theorem insertHere_spec (key : ρ → K) (x : ρ) (par : Option Nat)
    (hfree : t.mpNextRamDbFreeNode = some f) (change : Int) :
    ∃ t' T', t.insertHere x par change = (t', some f, .null, 1) ∧
      Inserted key t nil par f x t' (some f) T' 1 := by
  simp only [insertHere, getNextFreeNode, hfree]
  refine ⟨_, node (f, x) nil nil, rfl, ?_, ⟨trivial, trivial, by simp, by simp⟩, ⟨[], [], by simp⟩,
    Or.inr rfl, by simp, ?_, ?_⟩
  · rw [represents_node, represents_nil, represents_nil]
    simp [setNode, subTree, data, balance, setData, setSubTree]
  · refine SameOutside.setSubTree (SameOutside.setData (SameOutside.setNode ?_ ?_ _) ?_ _) ?_ _
    · exact ⟨fun _ _ => rfl, rfl, rfl, rfl, rfl⟩
    all_goals simp
  · rfl

/-- `Insert` at a node whose key is another one. -/
theorem insertNode_descend {c : BofCmp} {fuel : Nat} {change : Int}
    (hc : t.compareNode compare p x .equal = c) (hne : c ≠ .equal) {rts : AvlInsertRts}
    (hrec : insertNode compare fuel t x (some p) (t.subTree p (direction c)) change =
      some (t₁, ptr, rts, ch)) :
    insertNode compare (fuel + 1) t x par (some p) change =
      if rts = .null then
        ((t₁.setSubTree p (direction c) ptr).afterInsert p (c.toInt * ch)).map
          fun (t', root, ch') => (t', some root, rts, ch')
      else some (t₁.setSubTree p (direction c) ptr, some p, rts, ch) := by
  rw [insertNode]
  dsimp only
  rw [hc, if_pos hne, hrec]
  by_cases hnull : rts = .null
  · simp [hnull, Option.map_eq_bind]
  · simp [hnull]

/-- `Insert` of a new key when a node is free. The induction is on the tree below the pointer. -/
theorem insertNode_new (hcmp : ComparesBy (compare t.mIndex_U32) key) {fuel : Nat}
    (hfuel : T.height < fuel) (h : Represents t par ptr T) (hnd : (ids T).Nodup) (havl : T.IsAvl)
    (hasc : Ascending key T) (hnew : ∀ n ∈ T.inorder, key n.2 ≠ key x)
    (hfree : t.mpNextRamDbFreeNode = some f) (hf : f ∉ ids T) (change : Int) :
    ∃ t' ptr' T' ch, insertNode compare fuel t x par ptr change = some (t', ptr', .null, ch) ∧
      Inserted key t T par f x t' ptr' T' ch := by
  induction T generalizing fuel par ptr change with
  | nil =>
    obtain ⟨fuel, rfl⟩ := Nat.exists_eq_succ_of_ne_zero (Nat.ne_of_gt hfuel)
    obtain rfl : ptr = none := represents_nil.mp h
    obtain ⟨t', T', heq, hins⟩ := insertHere_spec key x par hfree change
    exact ⟨t', some f, T', 1, by rw [insertNode, heq], hins⟩
  | node n l r ihl ihr =>
    obtain ⟨p, y⟩ := n
    obtain ⟨fuel, rfl⟩ := Nat.exists_eq_succ_of_ne_zero (Nat.ne_of_gt (Nat.zero_lt_of_lt hfuel))
    obtain ⟨hptr, hy, -, -, hl, hr⟩ := represents_node.mp h
    subst hptr
    obtain ⟨hndl, hndr, -, -, -⟩ := (nodup_ids_join (m := false)).mp hnd
    have hne : key y ≠ key x := hnew (p, y) (by simp)
    have hcmp' := compareNode_equal (x := x) hcmp hy
    rw [height] at hfuel
    rcases lt_or_gt_of_ne hne with hlt | hlt
    · rw [if_neg (not_lt_of_gt hlt), if_neg hne.symm] at hcmp'
      obtain ⟨t₁, ptr₁, r', ch, heq, hins⟩ := ihr (show r.height < fuel by omega) hr hndr havl.2.1
        hasc.right (fun n hn => hnew n (by simp [hn])) (fun hmem => hf (by simp [hmem])) change
      have hbeyond : Beyond key rightSubTree x y l :=
        ⟨hlt, fun n hn => lt_trans (hasc.left_lt n hn) hlt⟩
      obtain ⟨t', root, T', ch', hafter, hlevel⟩ :=
        Inserted.level (d := rightSubTree) (by decide) h hnd
          (isAvl_join.mpr ⟨havl.2.1, havl.1, havl.2.2.2, havl.2.2.1⟩) hf hbeyond hins
      refine ⟨t', some root, T', ch', ?_, hlevel⟩
      rw [insertNode_descend hcmp' (by decide) heq, if_pos rfl]
      exact congrArg _ hafter
    · rw [if_pos hlt] at hcmp'
      obtain ⟨t₁, ptr₁, l', ch, heq, hins⟩ := ihl (show l.height < fuel by omega) hl hndl havl.1
        hasc.left (fun n hn => hnew n (by simp [hn])) (fun hmem => hf (by simp [hmem])) change
      have hbeyond : Beyond key leftSubTree x y r :=
        ⟨hlt, fun n hn => lt_trans hlt (hasc.lt_right n hn)⟩
      obtain ⟨t', root, T', ch', hafter, hlevel⟩ :=
        Inserted.level (d := leftSubTree) (by decide) h hnd havl hf hbeyond hins
      refine ⟨t', some root, T', ch', ?_, hlevel⟩
      rw [insertNode_descend hcmp' (by decide) heq, if_pos rfl]
      exact congrArg _ hafter

/-! ## Nothing to insert -/

/-- Storing a link again changes nothing. -/
theorem setSubTree_self : t.setSubTree p d (t.subTree p d) = t := by
  unfold setSubTree subTree setNode
  simp

/-- `Insert` of a key that is present. -/
theorem insertNode_present (hcmp : ComparesBy (compare t.mIndex_U32) key) {fuel : Nat}
    (hfuel : T.height < fuel) (h : Represents t par ptr T) (hasc : Ascending key T) {n : Nat × ρ}
    (hn : n ∈ T.inorder) (hkey : key n.2 = key x) (change : Int) :
    ∃ ch, insertNode compare fuel t x par ptr change = some (t, ptr, .node n.1, ch) := by
  induction T generalizing fuel par ptr change with
  | nil => exact absurd hn List.not_mem_nil
  | node m l r ihl ihr =>
    obtain ⟨p, y⟩ := m
    obtain ⟨fuel, rfl⟩ := Nat.exists_eq_succ_of_ne_zero (Nat.ne_of_gt (Nat.zero_lt_of_lt hfuel))
    obtain ⟨hptr, hy, -, -, hl, hr⟩ := represents_node.mp h
    subst hptr
    have hcmp' := compareNode_equal (x := x) hcmp hy
    rw [height] at hfuel
    rw [inorder_node] at hn
    rcases List.mem_append.mp hn with hn | hn
    · have hlt : key x < key y := hkey ▸ hasc.left_lt n hn
      rw [if_pos hlt] at hcmp'
      obtain ⟨ch, heq⟩ := ihl (show l.height < fuel by omega) hl hasc.left hn change
      refine ⟨ch, ?_⟩
      rw [insertNode_descend hcmp' (by decide) heq, if_neg (by simp)]
      exact congrArg (fun t => some (t, _)) setSubTree_self
    · rcases List.mem_cons.mp hn with rfl | hn
      · rw [if_neg (by rw [hkey]; exact lt_irrefl _), if_pos hkey.symm] at hcmp'
        refine ⟨change, ?_⟩
        rw [insertNode]
        dsimp only
        rw [hcmp', if_neg (by simp)]
        rfl
      · have hlt : key y < key x := hkey ▸ hasc.lt_right n hn
        rw [if_neg (not_lt_of_gt hlt), if_neg (ne_of_gt hlt)] at hcmp'
        obtain ⟨ch, heq⟩ := ihr (show r.height < fuel by omega) hr hasc.right hn change
        refine ⟨ch, ?_⟩
        rw [insertNode_descend hcmp' (by decide) heq, if_neg (by simp)]
        exact congrArg (fun t => some (t, _)) setSubTree_self

/-- `Insert` of a new key when no node is free. -/
theorem insertNode_full (hcmp : ComparesBy (compare t.mIndex_U32) key) {fuel : Nat}
    (hfuel : T.height < fuel) (h : Represents t par ptr T)
    (hnew : ∀ n ∈ T.inorder, key n.2 ≠ key x) (hfree : t.mpNextRamDbFreeNode = none)
    (change : Int) :
    ∃ ch, insertNode compare fuel t x par ptr change = some (t, ptr, .signalError, ch) := by
  induction T generalizing fuel par ptr change with
  | nil =>
    obtain ⟨fuel, rfl⟩ := Nat.exists_eq_succ_of_ne_zero (Nat.ne_of_gt hfuel)
    obtain rfl : ptr = none := represents_nil.mp h
    exact ⟨change, by simp [insertNode, insertHere, getNextFreeNode, hfree]⟩
  | node m l r ihl ihr =>
    obtain ⟨p, y⟩ := m
    obtain ⟨fuel, rfl⟩ := Nat.exists_eq_succ_of_ne_zero (Nat.ne_of_gt (Nat.zero_lt_of_lt hfuel))
    obtain ⟨hptr, hy, -, -, hl, hr⟩ := represents_node.mp h
    subst hptr
    have hne : key y ≠ key x := hnew (p, y) (by simp)
    have hcmp' := compareNode_equal (x := x) hcmp hy
    rw [height] at hfuel
    rcases lt_or_gt_of_ne hne with hlt | hlt
    · rw [if_neg (not_lt_of_gt hlt), if_neg hne.symm] at hcmp'
      obtain ⟨ch, heq⟩ := ihr (show r.height < fuel by omega) hr
        (fun n hn => hnew n (by simp [hn])) change
      refine ⟨ch, ?_⟩
      rw [insertNode_descend hcmp' (by decide) heq, if_neg (by simp)]
      exact congrArg (fun t => some (t, _)) setSubTree_self
    · rw [if_pos hlt] at hcmp'
      obtain ⟨ch, heq⟩ := ihl (show l.height < fuel by omega) hl
        (fun n hn => hnew n (by simp [hn])) change
      refine ⟨ch, ?_⟩
      rw [insertNode_descend hcmp' (by decide) heq, if_neg (by simp)]
      exact congrArg (fun t => some (t, _)) setSubTree_self

end BofStd.AvlTree
