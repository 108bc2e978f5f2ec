import BofStd.AvlTreeSpec

/-!
# `BofAvlNode`: reading and rotating the pool

The lemmas about single members of nodes, then `Represents` under changes of the pool: a change outside
of the tree leaves it alone (`Represents.congr`), and the parent link of its root can be set
(`Represents.reparent`). The rotations are treated once for both directions, on trees written with
`joinAt`.
-/

namespace BofStd.AvlTree

open WhichAvlSubTree BinaryTree

variable {ρ : Type} {t t' : AvlTree ρ} {p q i : Nat} {d e : WhichAvlSubTree}

/-! ## Single members -/

@[simp] theorem subTree_setSubTree (v : Option Nat) :
    (t.setSubTree p d v).subTree q e = if q = p ∧ e = d then v else t.subTree q e := by
  unfold subTree setSubTree setNode
  by_cases hq : q = p
  · subst hq
    by_cases he : e = d
    · subst he
      simp
    · simp [he]
  · simp [hq]

@[simp] theorem balance_setSubTree (v : Option Nat) :
    (t.setSubTree p d v).balance q = t.balance q := by
  unfold balance setSubTree setNode
  by_cases hq : q = p
  · subst hq
    simp
  · simp [hq]

@[simp] theorem data_setSubTree (v : Option Nat) : (t.setSubTree p d v).data q = t.data q := by
  unfold data setSubTree setNode
  by_cases hq : q = p
  · subst hq
    simp
  · simp [hq]

@[simp] theorem subTree_setBalance (b : Int) : (t.setBalance p b).subTree q e = t.subTree q e := by
  unfold subTree setBalance setNode
  by_cases hq : q = p
  · subst hq
    simp
  · simp [hq]

@[simp] theorem balance_setBalance (b : Int) :
    (t.setBalance p b).balance q = if q = p then b else t.balance q := by
  unfold balance setBalance setNode
  by_cases hq : q = p
  · subst hq
    simp
  · simp [hq]

@[simp] theorem data_setBalance (b : Int) : (t.setBalance p b).data q = t.data q := by
  unfold data setBalance setNode
  by_cases hq : q = p
  · subst hq
    simp
  · simp [hq]

@[simp] theorem subTree_setData (x : Option ρ) : (t.setData p x).subTree q e = t.subTree q e := by
  unfold subTree setData setNode
  by_cases hq : q = p
  · subst hq
    simp
  · simp [hq]

@[simp] theorem balance_setData (x : Option ρ) : (t.setData p x).balance q = t.balance q := by
  unfold balance setData setNode
  by_cases hq : q = p
  · subst hq
    simp
  · simp [hq]

@[simp] theorem data_setData (x : Option ρ) :
    (t.setData p x).data q = if q = p then x else t.data q := by
  unfold data setData setNode
  by_cases hq : q = p
  · subst hq
    simp
  · simp [hq]

@[simp] theorem balance_setParent (v w : Option Nat) : (t.setParent v w).balance q = t.balance q := by
  cases v with
  | none => rfl
  | some p => exact balance_setSubTree w

@[simp] theorem data_setParent (v w : Option Nat) : (t.setParent v w).data q = t.data q := by
  cases v with
  | none => rfl
  | some p => exact data_setSubTree w

@[simp] theorem subTree_setParent (v w : Option Nat) :
    (t.setParent v w).subTree q e = if v = some q ∧ e = parentSubTree then w else t.subTree q e := by
  cases v with
  | none => simp [setParent]
  | some p => simp [setParent, eq_comm]

@[simp] theorem free_setSubTree (v : Option Nat) :
    (t.setSubTree p d v).mpNextRamDbFreeNode = t.mpNextRamDbFreeNode := rfl

@[simp] theorem free_setBalance (b : Int) :
    (t.setBalance p b).mpNextRamDbFreeNode = t.mpNextRamDbFreeNode := rfl

@[simp] theorem free_setParent (v w : Option Nat) :
    (t.setParent v w).mpNextRamDbFreeNode = t.mpNextRamDbFreeNode := by
  cases v <;> rfl

/-! ## What stays the same -/

/-- The two pools differ at most in the nodes of `S`, and nothing else but the free list differs. -/
structure SameOutside (S : List Nat) (t t' : AvlTree ρ) : Prop where
  nodes : ∀ i, i ∉ S → t'.mpNodeList i = t.mpNodeList i
  root : t'.mpRoot = t.mpRoot
  index : t'.mIndex_U32 = t.mIndex_U32
  nbNode : t'.mNbNode_U32 = t.mNbNode_U32
  nbMax : t'.mNbMaxElement_U32 = t.mNbMaxElement_U32

variable {S : List Nat}

theorem SameOutside.refl : SameOutside S t t := ⟨fun _ _ => rfl, rfl, rfl, rfl, rfl⟩

theorem SameOutside.trans {t'' : AvlTree ρ} (h : SameOutside S t t') (h' : SameOutside S t' t'') :
    SameOutside S t t'' :=
  ⟨fun i hi => (h'.nodes i hi).trans (h.nodes i hi), h'.root.trans h.root, h'.index.trans h.index,
    h'.nbNode.trans h.nbNode, h'.nbMax.trans h.nbMax⟩

theorem SameOutside.mono {S' : List Nat} (h : SameOutside S t t') (hS : ∀ i ∈ S, i ∈ S') :
    SameOutside S' t t' :=
  ⟨fun i hi => h.nodes i fun hiS => hi (hS i hiS), h.root, h.index, h.nbNode, h.nbMax⟩

theorem SameOutside.setNode (h : SameOutside S t t') (hp : p ∈ S) (n : AvlNode ρ) :
    SameOutside S t (t'.setNode p n) := by
  refine ⟨fun i hi => ?_, h.root, h.index, h.nbNode, h.nbMax⟩
  have hne : i ≠ p := fun heq => hi (heq ▸ hp)
  rw [← h.nodes i hi]
  exact Function.update_of_ne hne _ _

theorem SameOutside.setSubTree (h : SameOutside S t t') (hp : p ∈ S) (v : Option Nat) :
    SameOutside S t (t'.setSubTree p d v) := h.setNode hp _

theorem SameOutside.setBalance (h : SameOutside S t t') (hp : p ∈ S) (b : Int) :
    SameOutside S t (t'.setBalance p b) := h.setNode hp _

theorem SameOutside.setData (h : SameOutside S t t') (hp : p ∈ S) (x : Option ρ) :
    SameOutside S t (t'.setData p x) := h.setNode hp _

theorem SameOutside.setParent (h : SameOutside S t t') {v : Option Nat} (hv : ∀ p ∈ v, p ∈ S)
    (w : Option Nat) : SameOutside S t (t'.setParent v w) := by
  cases v with
  | none => exact h
  | some p => exact h.setSubTree (hv p rfl) w

theorem SameOutside.subTree (h : SameOutside S t t') (hi : i ∉ S) : t'.subTree i d = t.subTree i d := by
  rw [AvlTree.subTree, h.nodes i hi, AvlTree.subTree]

theorem SameOutside.balance (h : SameOutside S t t') (hi : i ∉ S) : t'.balance i = t.balance i := by
  rw [AvlTree.balance, h.nodes i hi, AvlTree.balance]

theorem SameOutside.data (h : SameOutside S t t') (hi : i ∉ S) : t'.data i = t.data i := by
  rw [AvlTree.data, h.nodes i hi, AvlTree.data]

/-! ## The tree below a pointer -/

variable {T a b c : BinaryTree (Nat × ρ)} {par par' ptr : Option Nat} {x y : ρ}

@[simp] theorem ids_nil : ids (nil : BinaryTree (Nat × ρ)) = [] := rfl

@[simp] theorem ids_node (n : Nat × ρ) (l r : BinaryTree (Nat × ρ)) :
    ids (node n l r) = ids l ++ n.1 :: ids r := by
  rw [ids, inorder_node, List.map_append, List.map_cons]
  rfl

theorem represents_nil : Represents t par ptr nil ↔ ptr = none := by rw [Represents]

theorem represents_node {l r : BinaryTree (Nat × ρ)} :
    Represents t par ptr (node (p, x) l r) ↔
      ptr = some p ∧ t.data p = some x ∧ t.subTree p parentSubTree = par ∧
      t.balance p = (r.height : Int) - l.height ∧
      Represents t (some p) (t.subTree p leftSubTree) l ∧
      Represents t (some p) (t.subTree p rightSubTree) r := by rw [Represents]

theorem Represents.ptr_mem (h : Represents t par ptr T) : ∀ p ∈ ptr, p ∈ ids T := by
  intro p hp
  cases T with
  | nil =>
    rw [represents_nil] at h
    rw [h] at hp
    exact absurd hp (by simp)
  | node n l r =>
    obtain ⟨i, x⟩ := n
    rw [represents_node] at h
    rw [h.1] at hp
    obtain rfl : i = p := Option.some.inj hp
    simp

theorem Represents.eq_nil (h : Represents t par none T) : T = nil := by
  cases T with
  | nil => rfl
  | node n l r =>
    rw [represents_node] at h
    exact absurd h.1.symm (Option.some_ne_none _)

theorem Represents.eq_node (h : Represents t par (some p) T) :
    ∃ x l r, T = node (p, x) l r := by
  cases T with
  | nil => exact absurd (represents_nil.mp h) (Option.some_ne_none p)
  | node n l r =>
    obtain ⟨i, x⟩ := n
    rw [represents_node] at h
    obtain rfl : p = i := Option.some.inj h.1
    exact ⟨x, l, r, rfl⟩

theorem Represents.parent_eq (h : Represents t par ptr T) :
    ∀ p ∈ ptr, t.subTree p parentSubTree = par := by
  intro p hp
  obtain rfl : ptr = some p := hp
  obtain ⟨x, l, r, rfl⟩ := h.eq_node
  exact (represents_node.mp h).2.2.1

/-- The tree only depends on its own nodes. -/
theorem Represents.congr (h : Represents t par ptr T)
    (hnodes : ∀ i ∈ ids T, t'.mpNodeList i = t.mpNodeList i) : Represents t' par ptr T := by
  induction T generalizing par ptr with
  | nil => exact h
  | node n l r ihl ihr =>
    obtain ⟨i, x⟩ := n
    have hi := hnodes i (by simp)
    have hdata : t'.data i = t.data i := congrArg AvlNode.mpData hi
    have hbal : t'.balance i = t.balance i := congrArg AvlNode.mBalance_S32 hi
    have hsub : ∀ d, t'.subTree i d = t.subTree i d := fun d => by rw [subTree, hi, subTree]
    rw [represents_node] at h ⊢
    obtain ⟨hptr, hx, hpar, hb, hl, hr⟩ := h
    rw [hdata, hbal, hsub, hsub, hsub]
    exact ⟨hptr, hx, hpar, hb, ihl hl fun j hj => hnodes j (by simp [hj]),
      ihr hr fun j hj => hnodes j (by simp [hj])⟩

theorem Represents.of_same (h : Represents t par ptr T) (hsame : SameOutside S t t')
    (hdis : ∀ i ∈ ids T, i ∉ S) : Represents t' par ptr T :=
  h.congr fun i hi => hsame.nodes i (hdis i hi)

/-- The parent link of the root is set. -/
theorem Represents.reparent (h : Represents t par ptr T) (hnd : (ids T).Nodup)
    (hdata : ∀ i ∈ ids T, t'.data i = t.data i) (hbal : ∀ i ∈ ids T, t'.balance i = t.balance i)
    (hsub : ∀ i ∈ ids T, ∀ d, (d = parentSubTree → ptr ≠ some i) → t'.subTree i d = t.subTree i d)
    (hpar : ∀ i ∈ ptr, t'.subTree i parentSubTree = par') : Represents t' par' ptr T := by
  induction T generalizing par par' ptr with
  | nil => exact h
  | node n l r ihl ihr =>
    obtain ⟨i, x⟩ := n
    rw [represents_node] at h ⊢
    obtain ⟨hptr, hx, -, hb, hl, hr⟩ := h
    rw [ids_node, List.nodup_append, List.nodup_cons] at hnd
    obtain ⟨hndl, ⟨hir, hndr⟩, hdis⟩ := hnd
    have hi : i ∈ ids (node (i, x) l r) := by simp
    have hml : ∀ j ∈ ids l, j ∈ ids (node (i, x) l r) := fun j hj => by simp [hj]
    have hmr : ∀ j ∈ ids r, j ∈ ids (node (i, x) l r) := fun j hj => by simp [hj]
    -- no node of a subtree is the root, so its parent link is the old one
    have hkeepl : ∀ j ∈ ids l, ∀ d, t'.subTree j d = t.subTree j d := by
      intro j hj d
      refine hsub j (hml j hj) d fun _ hroot => ?_
      rw [hptr] at hroot
      exact hdis j hj i List.mem_cons_self (Option.some.inj hroot).symm
    have hkeepr : ∀ j ∈ ids r, ∀ d, t'.subTree j d = t.subTree j d := by
      intro j hj d
      refine hsub j (hmr j hj) d fun _ hroot => ?_
      rw [hptr] at hroot
      exact hir ((Option.some.inj hroot).symm ▸ hj)
    have hleft : t'.subTree i leftSubTree = t.subTree i leftSubTree :=
      hsub i hi _ fun hd => absurd hd (by decide)
    have hright : t'.subTree i rightSubTree = t.subTree i rightSubTree :=
      hsub i hi _ fun hd => absurd hd (by decide)
    have hparl : ∀ j ∈ t.subTree i leftSubTree, t'.subTree j parentSubTree = some i := by
      intro j hj
      rw [hkeepl j (hl.ptr_mem j hj)]
      exact hl.parent_eq j hj
    have hparr : ∀ j ∈ t.subTree i rightSubTree, t'.subTree j parentSubTree = some i := by
      intro j hj
      rw [hkeepr j (hr.ptr_mem j hj)]
      exact hr.parent_eq j hj
    refine ⟨hptr, (hdata i hi).trans hx, hpar i hptr, (hbal i hi).trans hb, ?_, ?_⟩
    · rw [hleft]
      exact ihl hl hndl (fun j hj => hdata j (hml j hj)) (fun j hj => hbal j (hml j hj))
        (fun j hj d _ => hkeepl j hj d) hparl
    · rw [hright]
      exact ihr hr hndr (fun j hj => hdata j (hmr j hj)) (fun j hj => hbal j (hmr j hj))
        (fun j hj d _ => hkeepr j hj d) hparr

/-! ## Rotations -/

theorem opposite_ne (d : WhichAvlSubTree) : d.opposite ≠ d := by
  cases d <;> simp [opposite]

theorem opposite_ne_parent (d : WhichAvlSubTree) : d.opposite ≠ parentSubTree := by
  cases d <;> simp [opposite]

/-- Whether a tree is seen from its right side. -/
def isMirror (d : WhichAvlSubTree) : Bool := decide (d ≠ leftSubTree)

/-- The sign of the balance of a tree that is heavy on the other side. -/
def sign (d : WhichAvlSubTree) : Int := if d = leftSubTree then 1 else -1

/-- The tree with `a` on the side `d` and `b` on the other one. -/
theorem represents_join (hd : d ≠ parentSubTree) :
    Represents t par ptr (join (isMirror d) a (p, x) b) ↔
      ptr = some p ∧ t.data p = some x ∧ t.subTree p parentSubTree = par ∧
      t.balance p = sign d * ((b.height : Int) - a.height) ∧
      Represents t (some p) (t.subTree p d) a ∧
      Represents t (some p) (t.subTree p d.opposite) b := by
  cases d with
  | leftSubTree =>
    show Represents t par ptr (node (p, x) a b) ↔ _
    rw [represents_node]
    simp [sign, opposite]
  | rightSubTree =>
    show Represents t par ptr (node (p, x) b a) ↔ _
    rw [represents_node]
    simp only [sign, opposite, reduceCtorEq, if_false]
    constructor
    · rintro ⟨h1, h2, h3, h4, h5, h6⟩
      exact ⟨h1, h2, h3, by omega, h6, h5⟩
    · rintro ⟨h1, h2, h3, h4, h5, h6⟩
      exact ⟨h1, h2, h3, by omega, h6, h5⟩
  | parentSubTree => exact absurd rfl hd

theorem mem_ids_join {m : Bool} {n : Nat × ρ} :
    i ∈ ids (join m a n b) ↔ i = n.1 ∨ i ∈ ids a ∨ i ∈ ids b := by
  simp only [ids, List.mem_map, mem_inorder_join]
  constructor
  · rintro ⟨k, rfl | hk | hk, rfl⟩
    · exact Or.inl rfl
    · exact Or.inr (Or.inl ⟨k, hk, rfl⟩)
    · exact Or.inr (Or.inr ⟨k, hk, rfl⟩)
  · rintro (rfl | ⟨k, hk, rfl⟩ | ⟨k, hk, rfl⟩)
    · exact ⟨n, Or.inl rfl, rfl⟩
    · exact ⟨k, Or.inr (Or.inl hk), rfl⟩
    · exact ⟨k, Or.inr (Or.inr hk), rfl⟩

theorem nodup_ids_join {m : Bool} {n : Nat × ρ} :
    (ids (join m a n b)).Nodup ↔
      (ids a).Nodup ∧ (ids b).Nodup ∧ n.1 ∉ ids a ∧ n.1 ∉ ids b ∧ List.Disjoint (ids a) (ids b) := by
  cases m with
  | false =>
    show (ids (node n a b)).Nodup ↔ _
    rw [ids_node]
    simp only [List.nodup_append', List.nodup_cons, List.disjoint_cons_right]
    tauto
  | true =>
    show (ids (node n b a)).Nodup ↔ _
    rw [ids_node]
    simp only [List.nodup_append', List.nodup_cons, List.disjoint_cons_right]
    have := @List.disjoint_comm _ (ids a) (ids b)
    tauto

/-- A rotation is described by a new pool, in which the tree has become `T'`. -/
structure Rotated (t : AvlTree ρ) (T : BinaryTree (Nat × ρ)) (par : Option Nat) (t' : AvlTree ρ)
    (root : Nat) (T' : BinaryTree (Nat × ρ)) : Prop where
  tree : Represents t' par (some root) T'
  same : SameOutside (ids T) t t'
  free : t'.mpNextRamDbFreeNode = t.mpNextRamDbFreeNode

/-- The members that a single rotation changes. -/
theorem rotateOnce_pool (hd : d ≠ parentSubTree) (hpq : p ≠ q)
    (hq : t.subTree p d.opposite = some q) (hp : t.subTree q d ≠ some p)
    (hqq : t.subTree q d ≠ some q) :
    ∃ t' z, t.rotateOnce p d = some (t', q, if t.balance q = 0 then 0 else 1) ∧
      (∀ i, t'.data i = t.data i) ∧ z = t.balance q - sign d ∧
      t'.balance q = z ∧ t'.balance p = -z ∧
      t'.subTree q parentSubTree = t.subTree p parentSubTree ∧ t'.subTree q d = some p ∧
      t'.subTree q d.opposite = t.subTree q d.opposite ∧
      t'.subTree p parentSubTree = some q ∧ t'.subTree p d = t.subTree p d ∧
      t'.subTree p d.opposite = t.subTree q d ∧
      (∀ i, i ≠ p → i ≠ q → t'.balance i = t.balance i ∧
        ∀ e, t'.subTree i e =
          if t.subTree q d = some i ∧ e = parentSubTree then some p else t.subTree i e) ∧
      SameOutside (p :: q :: (t.subTree q d).toList) t t' ∧
      t'.mpNextRamDbFreeNode = t.mpNextRamDbFreeNode := by
  have hqp : q ≠ p := hpq.symm
  have hopp := opposite_ne d
  have hoppp := opposite_ne_parent d
  have hsign : (if d = leftSubTree then t.balance q - 1 else t.balance q + 1) =
      t.balance q - sign d := by
    unfold sign
    split <;> omega
  simp only [rotateOnce, hq, Option.bind_eq_bind, Option.bind_some]
  refine ⟨_, _, rfl, ?_, rfl, ?_⟩
  · simp
  · simp only [subTree_setBalance, balance_setBalance, subTree_setSubTree, balance_setSubTree,
      subTree_setParent, balance_setParent, hsign, hpq, hqp, hd, hd.symm, hopp, hopp.symm, hoppp,
      hoppp.symm, hp, hqq, free_setBalance, free_setSubTree, free_setParent, and_true, and_false,
      true_and, if_true, if_false, ne_eq]
    refine ⟨?_, ?_⟩
    · intro i hip hiq
      simp [hip, hiq]
    · refine SameOutside.setBalance (SameOutside.setBalance (SameOutside.setSubTree
        (SameOutside.setSubTree (SameOutside.setParent (SameOutside.setSubTree
        (SameOutside.setSubTree SameOutside.refl ?_ _) ?_ _) ?_ _) ?_ _) ?_ _) ?_ _) ?_ _
      all_goals simp +contextual

/-- A single rotation to the side `d` of a tree that is too heavy on the other side. -/
theorem rotateOnce_spec (hd : d ≠ parentSubTree)
    (h : Represents t par (some p) (join (isMirror d) a (p, x) (join (isMirror d) b (q, y) c)))
    (hnd : (ids (join (isMirror d) a (p, x) (join (isMirror d) b (q, y) c))).Nodup)
    (hbc : b.height ≤ c.height) (hcb : c.height ≤ b.height + 1) (hac : c.height = a.height + 1) :
    ∃ t', t.rotateOnce p d = some (t', q, if b.height = c.height then 0 else 1) ∧
      Rotated t (join (isMirror d) a (p, x) (join (isMirror d) b (q, y) c)) par t' q
        (join (isMirror d) (join (isMirror d) a (p, x) b) (q, y) c) := by
  rw [represents_join hd, represents_join hd] at h
  obtain ⟨-, hx, hpar, hbalp, ha, hq, hy, hparq, hbalq, hb, hc⟩ := h
  rw [nodup_ids_join, nodup_ids_join] at hnd
  obtain ⟨hnda, ⟨hndb, hndc, hqb, hqc, hbcd⟩, hpa, hpj, hadis⟩ := hnd
  simp only [mem_ids_join, not_or] at hpj
  obtain ⟨hpq, hpb, hpc⟩ := hpj
  have hqa : q ∉ ids a := fun hmem => hadis hmem (mem_ids_join.mpr (Or.inl rfl))
  have hrootb : ∀ i, t.subTree q d = some i → i ∈ ids b := fun i hi => hb.ptr_mem i hi
  have hzero : t.balance q = 0 ↔ b.height = c.height := by
    rw [hbalq]
    unfold sign
    split <;> omega
  obtain ⟨t', z, heq, hdata, hz, hzq, hzp, hqpar, hqd, hqo, hppar, hpd, hpo, hother, hsame, hfree⟩ :=
    rotateOnce_pool hd hpq hq (fun hi => hpb (hrootb p hi)) (fun hi => hqb (hrootb q hi))
  simp only [hzero] at heq
  -- neither `a` nor `c` holds a node that changes, and of `b` only the parent link of the root does
  have ha' : Represents t' (some p) (t.subTree p d) a := by
    refine ha.of_same hsame fun i hi hmem => ?_
    rcases List.mem_cons.mp hmem with rfl | hmem
    · exact hpa hi
    · rcases List.mem_cons.mp hmem with rfl | hmem
      · exact hqa hi
      · exact hadis hi (mem_ids_join.mpr (Or.inr (Or.inl (hrootb i (Option.mem_toList.mp hmem)))))
  have hc' : Represents t' (some q) (t.subTree q d.opposite) c := by
    refine hc.of_same hsame fun i hi hmem => ?_
    rcases List.mem_cons.mp hmem with rfl | hmem
    · exact hpc hi
    · rcases List.mem_cons.mp hmem with rfl | hmem
      · exact hqc hi
      · exact hbcd (hrootb i (Option.mem_toList.mp hmem)) hi
  have hneb : ∀ i ∈ ids b, i ≠ p ∧ i ≠ q := by
    intro i hi
    constructor
    · rintro rfl
      exact hpb hi
    · rintro rfl
      exact hqb hi
  have hb' : Represents t' (some p) (t.subTree q d) b := by
    refine hb.reparent hndb (fun i _ => hdata i) (fun i hi => (hother i (hneb i hi).1 (hneb i hi).2).1)
      (fun i hi e he => ?_) (fun i hi => ?_)
    · rw [(hother i (hneb i hi).1 (hneb i hi).2).2 e, if_neg]
      rintro ⟨hroot, rfl⟩
      exact he rfl hroot
    · have hi' := hrootb i hi
      rw [(hother i (hneb i hi').1 (hneb i hi').2).2, if_pos ⟨hi, rfl⟩]
  refine ⟨t', heq, ⟨?_, ?_, hfree⟩⟩
  · rw [represents_join hd, represents_join hd, hdata, hdata, hqpar, hqd, hqo, hppar, hpd, hpo, hzq,
      hzp, height_join]
    refine ⟨rfl, hy, hpar, ?_, ⟨rfl, hx, rfl, ?_, ha', hb'⟩, hc'⟩
    · rw [hz, hbalq]
      unfold sign
      split <;> omega
    · rw [hz, hbalq]
      unfold sign
      split <;> omega
  · refine hsame.mono fun i hi => ?_
    rcases List.mem_cons.mp hi with rfl | hi
    · exact mem_ids_join.mpr (Or.inl rfl)
    · rcases List.mem_cons.mp hi with rfl | hi
      · exact mem_ids_join.mpr (Or.inr (Or.inr (mem_ids_join.mpr (Or.inl rfl))))
      · exact mem_ids_join.mpr (Or.inr (Or.inr (mem_ids_join.mpr (Or.inr (Or.inl
          (hrootb i (Option.mem_toList.mp hi)))))))

/-- The members that a double rotation changes. -/
theorem rotateTwice_pool {r : Nat} (hd : d ≠ parentSubTree) (hpq : p ≠ q) (hpr : p ≠ r) (hqr : q ≠ r)
    (hq : t.subTree p d.opposite = some q) (hr : t.subTree q d = some r)
    (hsub : ∀ i, t.subTree r d = some i ∨ t.subTree r d.opposite = some i → i ≠ p ∧ i ≠ q ∧ i ≠ r)
    (hdis : ∀ i, t.subTree r d = some i → t.subTree r d.opposite ≠ some i) :
    ∃ t', t.rotateTwice p d = some (t', r, 1) ∧
      (∀ i, t'.data i = t.data i) ∧ t'.balance r = 0 ∧
      t'.balance p = -(sign d * max (sign d * t.balance r) 0) ∧
      t'.balance q = -(sign d * min (sign d * t.balance r) 0) ∧
      t'.subTree r parentSubTree = t.subTree p parentSubTree ∧ t'.subTree r d = some p ∧
      t'.subTree r d.opposite = some q ∧
      t'.subTree p parentSubTree = some r ∧ t'.subTree p d = t.subTree p d ∧
      t'.subTree p d.opposite = t.subTree r d ∧
      t'.subTree q parentSubTree = some r ∧ t'.subTree q d = t.subTree r d.opposite ∧
      t'.subTree q d.opposite = t.subTree q d.opposite ∧
      (∀ i, i ≠ p → i ≠ q → i ≠ r → t'.balance i = t.balance i ∧
        ∀ e, t'.subTree i e =
          if e = parentSubTree ∧ t.subTree r d = some i then some p
          else if e = parentSubTree ∧ t.subTree r d.opposite = some i then some q
          else t.subTree i e) ∧
      SameOutside (p :: q :: r :: ((t.subTree r d).toList ++ (t.subTree r d.opposite).toList)) t t' ∧
      t'.mpNextRamDbFreeNode = t.mpNextRamDbFreeNode := by
  have hqp : q ≠ p := hpq.symm
  have hrp : r ≠ p := hpr.symm
  have hrq : r ≠ q := hqr.symm
  have hne := fun i hi => hsub i (Or.inl hi)
  have hne' := fun i hi => hsub i (Or.inr hi)
  have hdp : t.subTree r d ≠ some p := fun h => (hne p h).1 rfl
  have hdq : t.subTree r d ≠ some q := fun h => (hne q h).2.1 rfl
  have hdr : t.subTree r d ≠ some r := fun h => (hne r h).2.2 rfl
  have hop : t.subTree r d.opposite ≠ some p := fun h => (hne' p h).1 rfl
  have hoq : t.subTree r d.opposite ≠ some q := fun h => (hne' q h).2.1 rfl
  have hor : t.subTree r d.opposite ≠ some r := fun h => (hne' r h).2.2 rfl
  cases d with
  | parentSubTree => exact absurd rfl hd
  | leftSubTree =>
    have ho : leftSubTree.opposite = rightSubTree := rfl
    rw [ho] at hq hop hoq hor hdis
    simp only [rotateTwice, ho, hq, hr, hpq, hqp, hpr, hrp, hqr, hrq, hdp, hdq, hop, hoq, ↓reduceIte,
      subTree_setParent, subTree_setSubTree, subTree_setBalance, balance_setParent, balance_setSubTree,
      balance_setBalance, data_setParent, data_setSubTree, data_setBalance, free_setParent,
      free_setSubTree, free_setBalance, reduceCtorEq, and_false, and_true, and_self, true_and,
      Option.pure_def, Option.bind_eq_bind, Option.bind_some, Option.some.injEq, Prod.mk.injEq, ne_eq,
      exists_eq_left', implies_true, Int.neg_inj]
    refine ⟨?_, ?_, ?_, ?_⟩
    · simp [sign]
    · simp [sign]
    · intro i hip hiq hir
      simp [hip, hiq, hir, and_comm]
    · refine SameOutside.setBalance (SameOutside.setBalance (SameOutside.setBalance
        (SameOutside.setSubTree (SameOutside.setSubTree (SameOutside.setSubTree
        (SameOutside.setSubTree (SameOutside.setSubTree (SameOutside.setSubTree
        (SameOutside.setSubTree (SameOutside.setParent (SameOutside.setParent
        SameOutside.refl ?_ _) ?_ _) ?_ _) ?_ _) ?_ _) ?_ _) ?_ _) ?_ _) ?_ _) ?_ _) ?_ _) ?_ _
      all_goals simp +contextual
  | rightSubTree =>
    have ho : rightSubTree.opposite = leftSubTree := rfl
    rw [ho] at hq hop hoq hor hdis
    simp only [rotateTwice, ho, hq, hr, hpq, hqp, hpr, hrp, hqr, hrq, hdp, hdq, hop, hoq, ↓reduceIte,
      subTree_setParent, subTree_setSubTree, subTree_setBalance, balance_setParent, balance_setSubTree,
      balance_setBalance, data_setParent, data_setSubTree, data_setBalance, free_setParent,
      free_setSubTree, free_setBalance, reduceCtorEq, and_false, and_true, and_self, true_and,
      Option.pure_def, Option.bind_eq_bind, Option.bind_some, Option.some.injEq, Prod.mk.injEq, ne_eq,
      exists_eq_left', implies_true, Int.neg_inj]
    refine ⟨?_, ?_, ?_, ?_⟩
    · simp only [sign, reduceCtorEq, if_false]
      omega
    · simp only [sign, reduceCtorEq, if_false]
      omega
    · intro i hip hiq hir
      by_cases hi : t.subTree r rightSubTree = some i
      · simp [hip, hiq, hir, hi, hdis i hi]
      · simp [hip, hiq, hir, hi, and_comm]
    · refine SameOutside.setBalance (SameOutside.setBalance (SameOutside.setBalance
        (SameOutside.setSubTree (SameOutside.setSubTree (SameOutside.setSubTree
        (SameOutside.setSubTree (SameOutside.setSubTree (SameOutside.setSubTree
        (SameOutside.setSubTree (SameOutside.setParent (SameOutside.setParent
        SameOutside.refl ?_ _) ?_ _) ?_ _) ?_ _) ?_ _) ?_ _) ?_ _) ?_ _) ?_ _) ?_ _) ?_ _) ?_ _
      all_goals simp +contextual

theorem sign_mul_sign_mul (n : Int) : sign d * (sign d * n) = n := by
  unfold sign
  split <;> omega

/-- A double rotation to the side `d` of a tree that is too heavy on the inner side of the other one. -/
theorem rotateTwice_spec {r : Nat} {z : ρ} {e : BinaryTree (Nat × ρ)} (hd : d ≠ parentSubTree)
    (h : Represents t par (some p) (join (isMirror d) a (p, x)
      (join (isMirror d) (join (isMirror d) b (r, z) c) (q, y) e)))
    (hnd : (ids (join (isMirror d) a (p, x)
      (join (isMirror d) (join (isMirror d) b (r, z) c) (q, y) e))).Nodup)
    (hbc : b.height ≤ c.height + 1) (hcb : c.height ≤ b.height + 1)
    (hmax : max b.height c.height = a.height) (hea : e.height = a.height) :
    ∃ t', t.rotateTwice p d = some (t', r, 1) ∧
      Rotated t (join (isMirror d) a (p, x)
        (join (isMirror d) (join (isMirror d) b (r, z) c) (q, y) e)) par t' r
        (join (isMirror d) (join (isMirror d) a (p, x) b) (r, z) (join (isMirror d) c (q, y) e)) := by
  rw [represents_join hd, represents_join hd, represents_join hd] at h
  obtain ⟨-, hx, hpar, -, ha, hq, hy, -, -, ⟨hr, hz, -, hbalr, hb, hc⟩, he⟩ := h
  rw [nodup_ids_join, nodup_ids_join, nodup_ids_join] at hnd
  obtain ⟨hnda, ⟨⟨hndb, hndc, hrb, hrc, hbcd⟩, hnde, hqj, hqe, hjdis⟩, hpa, hpj, hadis⟩ := hnd
  simp only [mem_ids_join, not_or] at hpj hqj
  obtain ⟨hpq, ⟨hpr, hpb, hpc⟩, hpe⟩ := hpj
  obtain ⟨hqr, hqb, hqc⟩ := hqj
  have hrootb : ∀ i, t.subTree r d = some i → i ∈ ids b := fun i hi => hb.ptr_mem i hi
  have hrootc : ∀ i, t.subTree r d.opposite = some i → i ∈ ids c := fun i hi => hc.ptr_mem i hi
  have hneb : ∀ i ∈ ids b, i ≠ p ∧ i ≠ q ∧ i ≠ r := by
    refine fun i hi => ⟨?_, ?_, ?_⟩
    · rintro rfl
      exact hpb hi
    · rintro rfl
      exact hqb hi
    · rintro rfl
      exact hrb hi
  have hnec : ∀ i ∈ ids c, i ≠ p ∧ i ≠ q ∧ i ≠ r := by
    refine fun i hi => ⟨?_, ?_, ?_⟩
    · rintro rfl
      exact hpc hi
    · rintro rfl
      exact hqc hi
    · rintro rfl
      exact hrc hi
  obtain ⟨t', heq, hdata, hzr, hzp, hzq, hrpar, hrd, hro, hppar, hpd, hpo, hqpar, hqd, hqo, hother,
    hsame, hfree⟩ := rotateTwice_pool hd hpq hpr hqr hq hr
      (fun i hi => hi.elim (fun h => hneb i (hrootb i h)) (fun h => hnec i (hrootc i h)))
      (fun i hi hi' => hbcd (hrootb i hi) (hrootc i hi'))
  have hset : ∀ i, i ∈ p :: q :: r :: ((t.subTree r d).toList ++ (t.subTree r d.opposite).toList) →
      i = p ∨ i = q ∨ i ∈ ids (join (isMirror d) b (r, z) c) := by
    intro i hi
    simp only [List.mem_cons, List.mem_append, Option.mem_toList] at hi
    rcases hi with hi | hi | hi | hi | hi
    · exact Or.inl hi
    · exact Or.inr (Or.inl hi)
    · exact Or.inr (Or.inr (mem_ids_join.mpr (Or.inl hi)))
    · exact Or.inr (Or.inr (mem_ids_join.mpr (Or.inr (Or.inl (hrootb i hi)))))
    · exact Or.inr (Or.inr (mem_ids_join.mpr (Or.inr (Or.inr (hrootc i hi)))))
  -- `a` and `e` are untouched; the roots of `b` and `c` get new parents
  have ha' : Represents t' (some p) (t.subTree p d) a := by
    refine ha.of_same hsame fun i hi hmem => ?_
    rcases hset i hmem with rfl | rfl | hmem
    · exact hpa hi
    · exact hadis hi (mem_ids_join.mpr (Or.inl rfl))
    · exact hadis hi (mem_ids_join.mpr (Or.inr (Or.inl hmem)))
  have he' : Represents t' (some q) (t.subTree q d.opposite) e := by
    refine he.of_same hsame fun i hi hmem => ?_
    rcases hset i hmem with rfl | rfl | hmem
    · exact hpe hi
    · exact hqe hi
    · exact hjdis hmem hi
  have hb' : Represents t' (some p) (t.subTree r d) b := by
    refine hb.reparent hndb (fun i _ => hdata i) (fun i hi => ?_) (fun i hi f hf => ?_) (fun i hi => ?_)
    · exact (hother i (hneb i hi).1 (hneb i hi).2.1 (hneb i hi).2.2).1
    · rw [(hother i (hneb i hi).1 (hneb i hi).2.1 (hneb i hi).2.2).2 f, if_neg, if_neg]
      · exact fun h => hbcd hi (hrootc i h.2)
      · exact fun h => hf h.1 h.2
    · have hi' := hneb i (hrootb i hi)
      rw [(hother i hi'.1 hi'.2.1 hi'.2.2).2, if_pos ⟨rfl, hi⟩]
  have hc' : Represents t' (some q) (t.subTree r d.opposite) c := by
    refine hc.reparent hndc (fun i _ => hdata i) (fun i hi => ?_) (fun i hi f hf => ?_) (fun i hi => ?_)
    · exact (hother i (hnec i hi).1 (hnec i hi).2.1 (hnec i hi).2.2).1
    · rw [(hother i (hnec i hi).1 (hnec i hi).2.1 (hnec i hi).2.2).2 f, if_neg, if_neg]
      · exact fun h => hf h.1 h.2
      · exact fun h => hbcd (hrootb i h.2) hi
    · have hi' := hnec i (hrootc i hi)
      rw [(hother i hi'.1 hi'.2.1 hi'.2.2).2, if_neg, if_pos ⟨rfl, hi⟩]
      exact fun h => hbcd (hrootb i h.2) (hrootc i hi)
  refine ⟨t', heq, ⟨?_, ?_, hfree⟩⟩
  · rw [hbalr, sign_mul_sign_mul] at hzp hzq
    rw [represents_join hd, represents_join hd, represents_join hd, hdata, hdata, hdata, hrpar, hrd, hro,
      hppar, hpd, hpo, hqpar, hqd, hqo, hzr, hzp, hzq, height_join, height_join]
    refine ⟨rfl, hz, hpar, ?_, ⟨rfl, hx, rfl, ?_, ha', hb'⟩, ⟨rfl, hy, rfl, ?_, hc', he'⟩⟩
    · unfold sign
      split <;> omega
    · unfold sign
      split <;> omega
    · unfold sign
      split <;> omega
  · refine hsame.mono fun i hi => ?_
    rcases hset i hi with rfl | rfl | hi
    · exact mem_ids_join.mpr (Or.inl rfl)
    · exact mem_ids_join.mpr (Or.inr (Or.inr (mem_ids_join.mpr (Or.inl rfl))))
    · exact mem_ids_join.mpr (Or.inr (Or.inr (mem_ids_join.mpr (Or.inr (Or.inl hi)))))

/-! ## Rebalancing -/

/-- The result `res` of rebalancing is the balanced tree with the same nodes in the same order, and says
by how much its height is less. -/
def RebalancesTo (t : AvlTree ρ) (T : BinaryTree (Nat × ρ)) (par : Option Nat)
    (res : Option (AvlTree ρ × Nat × Int)) : Prop :=
  ∃ t' root T' heightChange, res = some (t', root, heightChange) ∧ Rotated t T par t' root T' ∧
    T'.IsAvl ∧ T'.inorder = T.inorder ∧ (heightChange = 0 ∨ heightChange = 1) ∧
    (T'.height : Int) + heightChange = T.height

/-- A tree whose side away from `d` is too high by one is rotated once or twice. -/
theorem rotate_spec (hd : d ≠ parentSubTree) (h : Represents t par (some p) (join (isMirror d) a (p, x) b))
    (hnd : (ids (join (isMirror d) a (p, x) b)).Nodup) (ha : a.IsAvl) (hb : b.IsAvl)
    (hheight : b.height = a.height + 2) :
    ∃ q, t.subTree p d.opposite = some q ∧
      RebalancesTo t (join (isMirror d) a (p, x) b) par
        (if t.balance q = -sign d then t.rotateTwice p d else t.rotateOnce p d) := by
  have hne : b ≠ nil := by
    rintro rfl
    rw [height] at hheight
    omega
  obtain ⟨b, ⟨q, y⟩, c, rfl⟩ := exists_join hne (isMirror d)
  obtain ⟨-, -, -, -, -, hq⟩ := (represents_join hd).mp h
  obtain ⟨hptr, -, -, hbalq, -, -⟩ := (represents_join hd).mp hq
  rw [isAvl_join] at hb
  obtain ⟨hb, hc, hbc, hcb⟩ := hb
  rw [height_join] at hheight
  refine ⟨q, hptr, ?_⟩
  by_cases hinner : c.height < b.height
  · have hbal : t.balance q = -sign d := by
      rw [hbalq]
      unfold sign
      split <;> omega
    have hne' : b ≠ nil := by
      rintro rfl
      rw [height] at hinner
      omega
    obtain ⟨b, ⟨r, z⟩, e, rfl⟩ := exists_join hne' (isMirror d)
    rw [isAvl_join] at hb
    obtain ⟨hb, he, hbe, heb⟩ := hb
    rw [height_join] at hinner hbc hcb hheight
    obtain ⟨t', heq, hrot⟩ := rotateTwice_spec hd h hnd hbe heb (by omega) (by omega)
    rw [if_pos hbal]
    refine ⟨t', r, _, 1, heq, hrot, ?_, inorder_join_twice, Or.inr rfl, ?_⟩
    · rw [isAvl_join, isAvl_join, isAvl_join, height_join, height_join]
      exact ⟨⟨ha, hb, by omega, by omega⟩, ⟨he, hc, by omega, by omega⟩, by omega, by omega⟩
    · simp only [height_join]
      omega
  · have hbal : t.balance q ≠ -sign d := by
      rw [hbalq]
      unfold sign
      split <;> omega
    obtain ⟨t', heq, hrot⟩ := rotateOnce_spec hd h hnd (by omega) hcb (by omega)
    rw [if_neg hbal]
    refine ⟨t', q, _, _, heq, hrot, ?_, inorder_join_assoc, ?_, ?_⟩
    · rw [isAvl_join, isAvl_join, height_join]
      exact ⟨⟨ha, hb, by omega, by omega⟩, hc, by omega, by omega⟩
    · split
      · exact Or.inl rfl
      · exact Or.inr rfl
    · simp only [height_join]
      split <;> omega

/-- `ReBalance` on a tree whose subtrees differ in height by at most two. -/
theorem reBalance_spec (h : Represents t par (some p) (node (p, x) a b))
    (hnd : (ids (node (p, x) a b)).Nodup) (ha : a.IsAvl) (hb : b.IsAvl)
    (hab : a.height ≤ b.height + 2) (hba : b.height ≤ a.height + 2) :
    RebalancesTo t (node (p, x) a b) par (t.reBalance p) := by
  obtain ⟨-, -, -, hbal, -, -⟩ := represents_node.mp h
  unfold reBalance
  by_cases hleft : t.balance p < -1
  · obtain ⟨q, hq, hrot⟩ := rotate_spec (d := rightSubTree) (by decide) h hnd hb ha (by omega)
    rw [if_pos hleft, show t.subTree p leftSubTree = some q from hq]
    exact hrot
  · rw [if_neg hleft]
    by_cases hright : t.balance p > 1
    · obtain ⟨q, hq, hrot⟩ := rotate_spec (d := leftSubTree) (by decide) h hnd ha hb (by omega)
      rw [if_pos hright, show t.subTree p rightSubTree = some q from hq]
      exact hrot
    · rw [if_neg hright]
      exact ⟨t, p, _, 0, rfl, ⟨h, SameOutside.refl, rfl⟩, ⟨ha, hb, by omega, by omega⟩, rfl,
        Or.inl rfl, Int.add_zero _⟩

end BofStd.AvlTree
