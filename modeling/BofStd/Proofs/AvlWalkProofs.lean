import BofStd.Proofs.AvlTreeProofs

/-!
# `BofAvlTree`: searching and walking

`Search` with `BOF_CMP_EQUAL` finds the node of the key. Following the links from the root visits the
nodes of the tree in order.

`GetFirst` and `GetNext` and their mirror images are treated once, for the side `e` from which the
nodes are counted. From the last node of a subtree the climb leads to the root of the subtree
(`climb_last`); the neighbour of a node is found by induction on the tree around it.
-/

/-! ## Searching -/

namespace BofStd.AvlTree

open WhichAvlSubTree BinaryTree

variable {ρ K : Type} [LinearOrder K] {compare : Nat → ρ → ρ → BofCmp} {key : ρ → K}
  {t : AvlTree ρ} {T : BinaryTree (Nat × ρ)} {free : List Nat} {x : ρ} {par ptr : Option Nat}

theorem searchDown_present (hcmp : ComparesBy (compare t.mIndex_U32) key) {fuel : Nat}
    (hfuel : T.height < fuel) (h : Represents t par ptr T) (hasc : Ascending key T) {n : Nat × ρ}
    (hn : n ∈ T.inorder) (hkey : key n.2 = key x) (prev : Option Nat × BofCmp) :
    ∃ prev', searchDown compare fuel t x .equal ptr prev = some (some n.1, prev') := by
  induction T generalizing fuel par ptr prev with
  | nil => exact absurd hn List.not_mem_nil
  | node m l r ihl ihr =>
    obtain ⟨p, y⟩ := m
    obtain ⟨fuel, rfl⟩ := Nat.exists_eq_succ_of_ne_zero (Nat.ne_of_gt (Nat.zero_lt_of_lt hfuel))
    obtain ⟨hptr, hy, -, -, hl, hr⟩ := represents_node.mp h
    subst hptr
    have hcmp' := compareNode_equal (x := x) hcmp hy
    rw [height] at hfuel
    rw [inorder_node] at hn
    rw [searchDown]
    rcases List.mem_append.mp hn with hn | hn
    · have hlt : key x < key y := hkey ▸ hasc.left_lt n hn
      rw [if_pos hlt] at hcmp'
      simp only [hcmp', reduceCtorEq, if_false]
      exact ihl (show l.height < fuel by omega) hl hasc.left hn _
    · rcases List.mem_cons.mp hn with rfl | hn
      · rw [if_neg (by rw [hkey]; exact lt_irrefl _), if_pos hkey.symm] at hcmp'
        simp only [hcmp', if_true]
        exact ⟨_, rfl⟩
      · have hlt : key y < key x := hkey ▸ hasc.lt_right n hn
        rw [if_neg (not_lt_of_gt hlt), if_neg (ne_of_gt hlt)] at hcmp'
        simp only [hcmp', reduceCtorEq, if_false]
        exact ihr (show r.height < fuel by omega) hr hasc.right hn _

theorem searchDown_absent (hcmp : ComparesBy (compare t.mIndex_U32) key) {fuel : Nat}
    (hfuel : T.height < fuel) (h : Represents t par ptr T) (hnew : ∀ n ∈ T.inorder, key n.2 ≠ key x)
    (prev : Option Nat × BofCmp) :
    ∃ prev', searchDown compare fuel t x .equal ptr prev = some (none, prev') := by
  induction T generalizing fuel par ptr prev with
  | nil =>
    obtain ⟨fuel, rfl⟩ := Nat.exists_eq_succ_of_ne_zero (Nat.ne_of_gt hfuel)
    obtain rfl : ptr = none := represents_nil.mp h
    exact ⟨prev, by rw [searchDown]⟩
  | node m l r ihl ihr =>
    obtain ⟨p, y⟩ := m
    obtain ⟨fuel, rfl⟩ := Nat.exists_eq_succ_of_ne_zero (Nat.ne_of_gt (Nat.zero_lt_of_lt hfuel))
    obtain ⟨hptr, hy, -, -, hl, hr⟩ := represents_node.mp h
    subst hptr
    have hne : key y ≠ key x := hnew (p, y) (by simp)
    have hcmp' := compareNode_equal (x := x) hcmp hy
    rw [height] at hfuel
    rw [searchDown]
    rcases lt_or_gt_of_ne hne with hlt | hlt
    · rw [if_neg (not_lt_of_gt hlt), if_neg hne.symm] at hcmp'
      simp only [hcmp', reduceCtorEq, if_false]
      exact ihr (show r.height < fuel by omega) hr (fun n hn => hnew n (by simp [hn])) _
    · rw [if_pos hlt] at hcmp'
      simp only [hcmp', reduceCtorEq, if_false]
      exact ihl (show l.height < fuel by omega) hl (fun n hn => hnew n (by simp [hn])) _

theorem WellFormed.search_present (h : WellFormed key t T free)
    (hcmp : ComparesBy (compare t.mIndex_U32) key) {n : Nat × ρ} (hn : n ∈ T.inorder)
    (hkey : key n.2 = key x) : t.search compare x .equal = some (some n.1) := by
  obtain ⟨prev, heq⟩ := searchDown_present hcmp h.height_lt h.tree h.ascending hn hkey (none, .equal)
  rw [search, searchNode, if_neg (by simp), heq]
  rfl

theorem WellFormed.search_absent (h : WellFormed key t T free)
    (hcmp : ComparesBy (compare t.mIndex_U32) key) (hnew : ∀ n ∈ T.inorder, key n.2 ≠ key x) :
    t.search compare x .equal = some none := by
  obtain ⟨prev, heq⟩ := searchDown_absent hcmp h.height_lt h.tree hnew (none, .equal)
  rw [search, searchNode, if_neg (by simp), heq]
  rfl

theorem Represents.walk_eq {fuel : Nat} (h : Represents t par ptr T) (hfuel : T.height < fuel) :
    walk fuel t ptr = T.inorder := by
  induction T generalizing fuel par ptr with
  | nil =>
    obtain ⟨fuel, rfl⟩ := Nat.exists_eq_succ_of_ne_zero (Nat.ne_of_gt hfuel)
    obtain rfl : ptr = none := represents_nil.mp h
    rw [walk]
    rfl
  | node m l r ihl ihr =>
    obtain ⟨p, y⟩ := m
    obtain ⟨fuel, rfl⟩ := Nat.exists_eq_succ_of_ne_zero (Nat.ne_of_gt (Nat.zero_lt_of_lt hfuel))
    obtain ⟨hptr, hy, -, -, hl, hr⟩ := represents_node.mp h
    subst hptr
    rw [height] at hfuel
    rw [walk, hy, ihl hl (by omega), ihr hr (by omega), inorder_node, List.append_assoc]
    rfl

end BofStd.AvlTree

/-! ## Walking -/

namespace BofStd.AvlTree

open WhichAvlSubTree BinaryTree

variable {ρ K : Type} [LinearOrder K] {compare : Nat → ρ → ρ → BofCmp} {key : ρ → K}
  {t : AvlTree ρ} {T : BinaryTree (Nat × ρ)} {free : List Nat} {x : ρ} {par ptr : Option Nat}
  {p q : Nat} {e : WhichAvlSubTree}

/-! ## Following one side -/

theorem walkTo_spec {fuel : Nat} (he : e ≠ parentSubTree) (hfuel : T.height < fuel)
    (h : Represents t par (some q) T) :
    ∃ n l, T.inorderFrom (isMirror e) = n :: l ∧ walkTo fuel t e q = some n.1 := by
  induction T using join_induction (isMirror e) generalizing fuel par q with
  | nil => exact absurd (represents_nil.mp h) (Option.some_ne_none q)
  | join a n b iha ihb =>
    obtain ⟨p, y⟩ := n
    obtain ⟨hq, -, -, -, ha, -⟩ := (represents_join he).mp h
    obtain rfl : q = p := Option.some.inj hq
    obtain ⟨fuel, rfl⟩ := Nat.exists_eq_succ_of_ne_zero (Nat.ne_of_gt (Nat.zero_lt_of_lt hfuel))
    rw [height_join] at hfuel
    rw [walkTo, inorderFrom_join]
    cases hsub : t.subTree q e with
    | none =>
      rw [hsub] at ha
      rw [ha.eq_nil, inorderFrom_nil]
      exact ⟨(q, y), b.inorderFrom (isMirror e), rfl, rfl⟩
    | some r =>
      rw [hsub] at ha
      obtain ⟨n, l, hin, hwalk⟩ := iha (show a.height < fuel by omega) ha
      refine ⟨n, l ++ (q, y) :: b.inorderFrom (isMirror e), ?_, hwalk⟩
      rw [hin, List.cons_append]

theorem WellFormed.getOutermost_eq (h : WellFormed key t T free) (he : e ≠ parentSubTree) :
    t.getOutermost e = some ((T.inorderFrom (isMirror e)).head?.map Prod.fst) := by
  have htree := h.tree
  unfold getOutermost
  cases hroot : t.mpRoot with
  | none =>
    rw [hroot] at htree
    rw [htree.eq_nil, inorderFrom_nil]
    rfl
  | some root =>
    rw [hroot] at htree
    obtain ⟨n, l, hin, hwalk⟩ := walkTo_spec he h.height_lt htree
    simp only [hin, hwalk]
    rfl

/-! ## Climbing -/

/-- The root of a tree that is seen from the side `e` answers to the nodes on that side as `wanted`. -/
theorem compareNode_near {a b : BinaryTree (Nat × ρ)} {y : ρ}
    (hcmp : ComparesBy (compare t.mIndex_U32) key) (hy : t.data p = some y)
    (hasc : Ascending key (join (isMirror e) a (p, y) b)) {n : Nat × ρ} (hn : n ∈ a.inorder)
    (he : e ≠ parentSubTree) : t.compareNode compare p n.2 .equal = wanted e := by
  rw [compareNode_equal hcmp hy]
  cases e with
  | leftSubTree =>
    have hlt : key n.2 < key y := hasc.left_lt n hn
    rw [if_pos hlt]
    rfl
  | rightSubTree =>
    have hlt : key y < key n.2 := hasc.lt_right n hn
    rw [if_neg (not_lt_of_gt hlt), if_neg (ne_of_gt hlt)]
    rfl
  | parentSubTree => exact absurd rfl he

theorem compareNode_far {a b : BinaryTree (Nat × ρ)} {y : ρ}
    (hcmp : ComparesBy (compare t.mIndex_U32) key) (hy : t.data p = some y)
    (hasc : Ascending key (join (isMirror e) a (p, y) b)) {n : Nat × ρ} (hn : n ∈ b.inorder)
    (he : e ≠ parentSubTree) : t.compareNode compare p n.2 .equal ≠ wanted e := by
  rw [compareNode_equal hcmp hy]
  cases e with
  | leftSubTree =>
    have hlt : key y < key n.2 := hasc.lt_right n hn
    rw [if_neg (not_lt_of_gt hlt), if_neg (ne_of_gt hlt)]
    simp [wanted]
  | rightSubTree =>
    have hlt : key n.2 < key y := hasc.left_lt n hn
    rw [if_pos hlt]
    simp [wanted]
  | parentSubTree => exact absurd rfl he

theorem ascending_join {a b : BinaryTree (Nat × ρ)} {n : Nat × ρ}
    (hasc : Ascending key (join (isMirror e) a n b)) : Ascending key a ∧ Ascending key b := by
  cases hm : isMirror e with
  | false =>
    rw [hm] at hasc
    exact ⟨Ascending.left hasc, Ascending.right hasc⟩
  | true =>
    rw [hm] at hasc
    exact ⟨Ascending.right hasc, Ascending.left hasc⟩

/-- One step of the climb. -/
theorem climb_succ (fuel : Nat) {wanted : BofCmp} (hpar : t.subTree q parentSubTree = some p)
    (hx : t.data q = some x) :
    climb compare (fuel + 1) t wanted q =
      if t.compareNode compare p x .equal = wanted then some (some p)
      else climb compare fuel t wanted p := by
  rw [climb, hpar]
  simp only [compareData, hx, Option.bind_eq_bind, Option.bind_some]
  rfl

/-- The climb from the last node of a subtree comes to its root. -/
theorem climb_last (hcmp : ComparesBy (compare t.mIndex_U32) key) (he : e ≠ parentSubTree)
    (h : Represents t par (some q) T) (hasc : Ascending key T) {l : List (Nat × ρ)}
    (hlast : T.inorderFrom (isMirror e) = l ++ [(p, x)]) :
    t.subTree p e.opposite = none ∧ ∃ k < T.height, ∀ fuel,
      climb compare (fuel + k) t (wanted e) p = climb compare fuel t (wanted e) q := by
  induction T using join_induction (isMirror e) generalizing par q l with
  | nil => exact absurd (represents_nil.mp h) (Option.some_ne_none q)
  | join a n b iha ihb =>
    obtain ⟨i, y⟩ := n
    obtain ⟨hq, hy, -, -, -, hb⟩ := (represents_join he).mp h
    obtain rfl : q = i := Option.some.inj hq
    rw [inorderFrom_join] at hlast
    rw [height_join]
    cases hsub : t.subTree q e.opposite with
    | none =>
      rw [hsub] at hb
      rw [hb.eq_nil, inorderFrom_nil] at hlast
      obtain ⟨-, hpq⟩ := List.append_inj' hlast rfl
      obtain rfl : q = p := congrArg Prod.fst (List.cons.inj hpq).1
      exact ⟨hsub, 0, Nat.succ_pos _, fun fuel => rfl⟩
    | some r =>
      rw [hsub] at hb
      obtain ⟨z, u, v, hbj⟩ := hb.eq_node
      have hr : (r, z) ∈ b.inorder := by
        rw [hbj]
        simp
      -- the last node is the last one of the subtree on the far side
      obtain ⟨l', n', hb'⟩ : ∃ l' n', b.inorderFrom (isMirror e) = l' ++ [n'] := by
        refine (List.eq_nil_or_concat' _).resolve_left fun hnil => ?_
        have hmem := (mem_inorderFrom (m := isMirror e)).mpr hr
        rw [hnil] at hmem
        exact List.not_mem_nil hmem
      rw [hb', ← List.cons_append, ← List.append_assoc] at hlast
      obtain rfl : n' = (p, x) := (List.cons.inj (List.append_inj' hlast rfl).2).1
      obtain ⟨hnone, k, hk, hclimb⟩ := ihb hb (ascending_join hasc).2 hb'
      refine ⟨hnone, k + 1, by omega, fun fuel => ?_⟩
      have hfar := compareNode_far (n := (r, z)) hcmp hy hasc hr he
      calc climb compare (fuel + (k + 1)) t (wanted e) p
          = climb compare (fuel + 1 + k) t (wanted e) p := by rw [Nat.add_right_comm, Nat.add_assoc]
        _ = climb compare (fuel + 1) t (wanted e) r := hclimb (fuel + 1)
        _ = climb compare fuel t (wanted e) q := by
          rw [climb_succ fuel (hb.parent_eq r rfl) (hb.data_of_mem hr), if_neg hfar]

/-- Two places in one list: they are the same, or one is before the other. -/
theorem append_cons_cases {α : Type} {l₁ l₂ l₁' l₂' : List α} {a b : α}
    (h : l₁ ++ a :: l₂ = l₁' ++ b :: l₂') :
    (a = b ∧ l₂ = l₂') ∨ (∃ c, l₁ = l₁' ++ b :: c ∧ l₂' = c ++ a :: l₂) ∨
      ∃ c, l₂ = c ++ b :: l₂' := by
  rcases List.append_eq_append_iff.mp h with ⟨c, -, hc⟩ | ⟨c, hl, hc⟩
  · cases c with
    | nil => exact Or.inl (List.cons.inj hc)
    | cons m c => exact Or.inr (Or.inr ⟨c, (List.cons.inj hc).2⟩)
  · cases c with
    | nil =>
      obtain ⟨hab, hl₂⟩ := List.cons.inj hc
      exact Or.inl ⟨hab.symm, hl₂.symm⟩
    | cons m c =>
      obtain ⟨rfl, hl₂⟩ := List.cons.inj hc
      exact Or.inr (Or.inl ⟨c, hl, hl₂⟩)

/-- The neighbour of a node that is not the last one. -/
theorem getNeighbour_of_cons (hcmp : ComparesBy (compare t.mIndex_U32) key) (he : e ≠ parentSubTree)
    (h : Represents t par ptr T) (hasc : Ascending key T) (hfuel : T.height < t.fuel)
    {l l' : List (Nat × ρ)} {n : Nat × ρ}
    (hin : T.inorderFrom (isMirror e) = l ++ (p, x) :: n :: l') :
    t.getNeighbour compare e.opposite (wanted e) (some p) = some (some n.1) := by
  induction T using join_induction (isMirror e) generalizing par ptr l l' with
  | nil =>
    rw [inorderFrom_nil] at hin
    exact absurd hin.symm (by simp)
  | join a m b iha ihb =>
    obtain ⟨i, y⟩ := m
    obtain ⟨-, hy, -, -, ha, hb⟩ := (represents_join he).mp h
    obtain ⟨hasca, hascb⟩ := ascending_join hasc
    rw [height_join] at hfuel
    rw [inorderFrom_join] at hin
    rcases append_cons_cases hin with ⟨hroot, hb'⟩ | ⟨c, ha', hc⟩ | ⟨c, hb'⟩
    · -- the node is the root, and the neighbour is the first node on the far side
      obtain ⟨rfl, rfl⟩ := Prod.mk.inj hroot
      cases hsub : t.subTree i e.opposite with
      | none =>
        rw [hsub] at hb
        rw [hb.eq_nil, inorderFrom_nil] at hb'
        exact absurd hb' (by simp)
      | some r =>
        rw [hsub] at hb
        obtain ⟨n', l'', hin', hwalk⟩ := walkTo_spec he (show b.height < t.fuel by omega) hb
        rw [hb'] at hin'
        obtain rfl : n = n' := (List.cons.inj hin').1
        have hopp : e.opposite.opposite = e := by
          cases e with
          | leftSubTree => rfl
          | rightSubTree => rfl
          | parentSubTree => exact absurd rfl he
        simp only [getNeighbour, hsub, hopp, hwalk]
        rfl
    · cases c with
      | nil =>
        -- the node is the last one on the near side, and the neighbour is the root
        obtain ⟨rfl, -⟩ := List.cons.inj hc
        have hmem : (p, x) ∈ a.inorder := by
          rw [← mem_inorderFrom (m := isMirror e), ha']
          exact List.mem_append_right _ List.mem_cons_self
        cases hsub : t.subTree i e with
        | none =>
          rw [hsub] at ha
          rw [ha.eq_nil] at hmem
          exact absurd hmem List.not_mem_nil
        | some q =>
          rw [hsub] at ha
          obtain ⟨z, u, v, haj⟩ := ha.eq_node
          have hq : (q, z) ∈ a.inorder := by
            rw [haj]
            simp
          obtain ⟨hnone, k, hk, hclimb⟩ := climb_last hcmp he ha hasca ha'
          obtain ⟨fuel, hfuel'⟩ : ∃ fuel, t.fuel = fuel + 1 + k := ⟨t.fuel - k - 1, by omega⟩
          simp only [getNeighbour, hnone]
          rw [hfuel', hclimb, climb_succ fuel (ha.parent_eq q rfl) (ha.data_of_mem hq), if_pos]
          exact compareNode_near hcmp hy hasc hq he
      | cons m c =>
        obtain ⟨rfl, -⟩ := List.cons.inj hc
        exact iha ha hasca (by omega) ha'
    · exact ihb hb hascb (by omega) hb'

/-- The neighbour of a node in the order from the side `e`. -/
theorem WellFormed.getNeighbour_eq (h : WellFormed key t T free)
    (hcmp : ComparesBy (compare t.mIndex_U32) key) (he : e ≠ parentSubTree) {l l' : List (Nat × ρ)}
    (hin : T.inorderFrom (isMirror e) = l ++ (p, x) :: l') :
    t.getNeighbour compare e.opposite (wanted e) (some p) = some (l'.head?.map Prod.fst) := by
  cases l' with
  | cons n l' => exact getNeighbour_of_cons hcmp he h.tree h.ascending h.height_lt hin
  | nil =>
    have htree := h.tree
    cases hroot : t.mpRoot with
    | none =>
      rw [hroot] at htree
      rw [htree.eq_nil, inorderFrom_nil] at hin
      exact absurd hin.symm (by simp)
    | some q =>
      rw [hroot] at htree
      obtain ⟨hnone, k, hk, hclimb⟩ := climb_last hcmp he htree h.ascending hin
      have hlt := h.height_lt
      obtain ⟨fuel, hfuel⟩ : ∃ fuel, t.fuel = fuel + 1 + k := ⟨t.fuel - k - 1, by omega⟩
      simp only [getNeighbour, hnone]
      rw [hfuel, hclimb, climb, htree.parent_eq q rfl]
      rfl

theorem WellFormed.nodes_eq (h : WellFormed key t T free) : t.nodes = T.inorder :=
  h.tree.walk_eq h.height_lt

/-- What `Delete` of the key of the node `n` moves, when it frees the node `f`: nothing, if `f` is `n`. -/
theorem WellFormed.moves_eq_false (h : WellFormed key t T free)
    (hcmp : ComparesBy (compare t.mIndex_U32) key) {n : Nat × ρ} (hn : n ∈ T.inorder)
    (hkey : key n.2 = key x) {T' : BinaryTree (Nat × ρ)} {f : Nat} (hfrom : RemovedFrom n f T T')
    (htwo : f ≠ n.1 → t.subTree n.1 leftSubTree ≠ none ∧ t.subTree n.1 rightSubTree ≠ none)
    (hmoves : t.moves compare x p = false) : f = n.1 ∨ p ≠ n.1 ∧ p ≠ f := by
  by_cases hf : f = n.1
  · exact Or.inl hf
  · obtain ⟨hl, hr⟩ := htwo hf
    obtain ⟨l₁, l₂, h₁, ⟨hf', -⟩ | ⟨z, l₃, rfl, -⟩⟩ := hfrom
    · exact absurd hf' hf
    · have hnext : t.getNext compare (some n.1) = some (some f) :=
        h.getNeighbour_eq (e := leftSubTree) (x := n.2) hcmp (by decide) h₁
      rw [moves, h.search_present hcmp hn hkey] at hmoves
      simp only [Option.isSome_iff_ne_none.mpr hl, Option.isSome_iff_ne_none.mpr hr, hnext,
        Bool.true_and, Bool.or_eq_false_iff, decide_eq_false_iff_not, Option.some.injEq] at hmoves
      exact Or.inr ⟨hmoves.1, fun hpf => hmoves.2 hpf.symm⟩

/-! ## Searching -/

/-- The descent ends at a node of the tree, and so does the last node before it. -/
theorem searchDown_mem {fuel : Nat} {cmp : BofCmp} {prev prev' : Option Nat × BofCmp}
    {found : Option Nat} (h : Represents t par ptr T)
    (heq : searchDown compare fuel t x cmp ptr prev = some (found, prev')) :
    (∀ i ∈ found, i ∈ ids T) ∧ ∀ i ∈ prev'.1, i ∈ ids T ∨ i ∈ prev.1 := by
  induction fuel generalizing ptr par T prev with
  | zero => exact absurd heq (by simp [searchDown])
  | succ fuel ih =>
    cases ptr with
    | none =>
      simp only [searchDown, Option.some.injEq, Prod.mk.injEq] at heq
      obtain ⟨rfl, rfl⟩ := heq
      exact ⟨by simp, fun i hi => Or.inr hi⟩
    | some p =>
      obtain ⟨y, l, r, rfl⟩ := h.eq_node
      obtain ⟨-, -, -, -, hl, hr⟩ := represents_node.mp h
      rw [searchDown] at heq
      by_cases hc : t.compareNode compare p x cmp = cmp
      · simp only [hc, if_true, Option.some.injEq, Prod.mk.injEq] at heq
        obtain ⟨rfl, rfl⟩ := heq
        refine ⟨fun i hi => ?_, fun i hi => Or.inr hi⟩
        obtain rfl : p = i := Option.some.inj hi
        simp
      · simp only [hc, if_false] at heq
        have hsub : ∃ T', Represents t (some p)
            (t.subTree p (direction (t.compareNode compare p x cmp))) T' ∧
            ∀ i ∈ ids T', i ∈ ids (node (p, y) l r) := by
          unfold direction
          split
          · exact ⟨l, hl, fun i hi => by simp [hi]⟩
          · exact ⟨r, hr, fun i hi => by simp [hi]⟩
        obtain ⟨T', hT', hsub⟩ := hsub
        obtain ⟨hfound, hprev⟩ := ih hT' heq
        refine ⟨fun i hi => hsub i (hfound i hi), fun i hi => Or.inl ?_⟩
        rcases hprev i hi with hi | hi
        · exact hsub i hi
        · obtain rfl : p = i := Option.some.inj hi
          simp

/-- The parent of a node of the tree is one of its nodes, or the parent of the root. -/
theorem Represents.parent_mem (h : Represents t par ptr T) (hp : p ∈ ids T) :
    ∀ q ∈ t.subTree p parentSubTree, q ∈ ids T ∨ q ∈ par := by
  induction T generalizing par ptr with
  | nil => exact absurd hp List.not_mem_nil
  | node n l r ihl ihr =>
    obtain ⟨i, y⟩ := n
    obtain ⟨-, -, hpar, -, hl, hr⟩ := represents_node.mp h
    intro q hq
    rw [ids_node, List.mem_append, List.mem_cons] at hp
    have hsub : ∀ {T' : BinaryTree (Nat × ρ)}, q ∈ ids T' ∨ q ∈ some i → (∀ j ∈ ids T', j ∈ ids (node (i, y) l r)) →
        q ∈ ids (node (i, y) l r) ∨ q ∈ par := by
      intro T' hq hT'
      rcases hq with hq | hq
      · exact Or.inl (hT' q hq)
      · obtain rfl : i = q := Option.some.inj hq
        exact Or.inl (by simp)
    rcases hp with hp | rfl | hp
    · exact hsub (ihl hl hp q hq) fun j hj => by simp [hj]
    · rw [hpar] at hq
      exact Or.inr hq
    · exact hsub (ihr hr hp q hq) fun j hj => by simp [hj]

theorem searchUp_mem {fuel : Nat} {wanted : BofCmp} {found : Option Nat}
    (h : Represents t none ptr T) (hp : p ∈ ids T)
    (heq : searchUp compare fuel t x wanted p = some found) : ∀ i ∈ found, i ∈ ids T := by
  induction fuel generalizing p with
  | zero => exact absurd heq (by simp [searchUp])
  | succ fuel ih =>
    rw [searchUp] at heq
    cases hpar : t.subTree p parentSubTree with
    | none =>
      simp only [hpar, Option.some.injEq] at heq
      subst heq
      simp
    | some q =>
      have hq : q ∈ ids T := (h.parent_mem hp q hpar).resolve_right (by simp)
      simp only [hpar] at heq
      split at heq
      · intro i hi
        rw [← Option.some.inj heq] at hi
        obtain rfl : q = i := Option.some.inj hi
        exact hq
      · exact ih hq heq

/-- Whatever `Search` looks for, it finds a node of the tree. -/
theorem WellFormed.search_mem (h : WellFormed key t T free) {cmp : BofCmp}
    (heq : t.search compare x cmp = some (some p)) : p ∈ ids T := by
  have htree := h.tree
  rw [search, searchNode] at heq
  split at heq
  · cases hdown : searchDown compare t.fuel t x .equal t.mpRoot (none, .equal) with
    | none =>
      rw [hdown] at heq
      exact absurd heq (by simp)
    | some res =>
      obtain ⟨found, prev, c⟩ := res
      obtain ⟨hfound, hprev⟩ := searchDown_mem htree hdown
      simp only [hdown, Option.bind_eq_bind, Option.bind_some] at heq
      cases found with
      | some q =>
        obtain rfl : q = p := Option.some.inj (Option.some.inj heq)
        exact hfound q rfl
      | none =>
        cases prev with
        | none => exact absurd heq (by simp)
        | some q =>
          have hq : q ∈ ids T := (hprev q rfl).resolve_right (by simp)
          simp only at heq
          generalize (if cmp = .greaterOrEqual then .less else .greater : BofCmp) = wanted at heq
          split at heq
          · obtain rfl : q = p := Option.some.inj (Option.some.inj heq)
            exact hq
          · exact searchUp_mem htree hq heq p rfl
  · cases hdown : searchDown compare t.fuel t x cmp t.mpRoot (none, .equal) with
    | none =>
      rw [hdown] at heq
      exact absurd heq (by simp)
    | some res =>
      obtain ⟨found, prev, c⟩ := res
      simp only [hdown, Option.bind_eq_bind, Option.bind_some] at heq
      obtain rfl : found = some p := Option.some.inj heq
      exact (searchDown_mem htree hdown).1 p rfl

end BofStd.AvlTree
