import BofStd.AvlTreeSpec
import BofStd.Proofs.AvlWalkProofs

/-!
# `BofAvlTree`: runs with every mode of `Delete`

`Delete` with `BOF_CMP_LESS` removes the first node, with `BOF_CMP_GREATER` the last one; in the other modes
it removes the node of the key. So the tree follows the map on these runs too (`callRel`).
-/

namespace BofStd.AvlTree

open WhichAvlSubTree BinaryTree Machine

variable {ρ K : Type} [LinearOrder K] {compare : Nat → ρ → ρ → BofCmp} {key : ρ → K}
  {t : AvlTree ρ} {T : BinaryTree (Nat × ρ)} {free : List Nat} {x : ρ} {m : SortedMap ρ}
  {e : WhichAvlSubTree}

/-- The modes other than those for the first and the last node are one. -/
theorem deleteNode_mode {cmp : BofCmp} (hless : cmp ≠ .less) (hgreater : cmp ≠ .greater) (fuel : Nat)
    (t : AvlTree ρ) (ptr : Option Nat) :
    deleteNode compare fuel t x ptr cmp = deleteNode compare fuel t x ptr .equal := by
  have hcmp : ∀ p, t.compareNode compare p x cmp = t.compareNode compare p x .equal := fun p => by
    cases cmp with
    | less => exact absurd rfl hless
    | greater => exact absurd rfl hgreater
    | lessOrEqual => rfl
    | equal => rfl
    | greaterOrEqual => rfl
  induction fuel generalizing ptr with
  | zero => rfl
  | succ fuel ih =>
    cases ptr with
    | none => rfl
    | some p => simp only [deleteNode, hcmp, ih]

theorem delete_mode {cmp : BofCmp} (hless : cmp ≠ .less) (hgreater : cmp ≠ .greater) (t : AvlTree ρ) :
    t.delete compare x cmp = t.delete compare x .equal := by
  rw [delete, deleteNode_mode hless hgreater, delete]

/-- The records from one side on. -/
theorem records_inorderFrom {b : Bool} (T : BinaryTree (Nat × ρ)) :
    (T.inorderFrom b).map Prod.snd = if b then (records T).reverse else records T := by
  cases b with
  | false => rfl
  | true =>
    show T.inorder.reverse.map Prod.snd = _
    rw [List.map_reverse]
    rfl

variable (compare) in
theorem WellFormed.delete_outermost (h : WellFormed key t T free) (x : ρ) (he : e ≠ parentSubTree)
    (hne : T ≠ nil) :
    ∃ t' T' f y, t.delete compare x (wanted e) = some (t', some y) ∧ WellFormed key t' T' (f :: free) ∧
      (if isMirror e then (records T).reverse else records T) =
        y :: (if isMirror e then (records T').reverse else records T') ∧
      t'.mIndex_U32 = t.mIndex_U32 ∧ t'.mNbMaxElement_U32 = t.mNbMaxElement_U32 := by
  have hnd := (List.nodup_append'.mp h.nodup).1
  obtain ⟨t₁, ptr, T', ch, n, heq, hrem, hin⟩ :=
    deleteNode_outermost compare x he h.height_lt h.tree hnd h.balanced hne
  have hrec := congrArg (List.map Prod.snd) hin
  rw [List.map_cons, records_inorderFrom, records_inorderFrom] at hrec
  have hsub : (records T').Sublist (records T) := by
    cases hm : isMirror e with
    | false =>
      simp only [hm, Bool.false_eq_true, if_false] at hrec
      rw [hrec]
      exact List.sublist_cons_self _ _
    | true =>
      simp only [hm, if_true] at hrec
      rw [← List.reverse_sublist, hrec]
      exact List.sublist_cons_self _ _
  obtain ⟨t', hdel, hw, hindex, hnb⟩ := h.delete_removed heq hrem (h.ascending.sublist hsub)
  exact ⟨t', T', n.1, n.2, hdel, hw, hrec, hindex, hnb⟩

theorem WellFormed.delete_nil (h : WellFormed key t nil free) (x : ρ) (cmp : BofCmp) :
    t.delete compare x cmp = some (t, none) := by
  have hroot : t.mpRoot = none := represents_nil.mp h.tree
  rw [delete, hroot, fuel, deleteNode]
  rw [← hroot]
  rfl

/-- One call: the tree does what the map does. -/
theorem MapRel.call (h : MapRel compare key t m) (c : Call ρ) :
    MapRel compare key (call compare t c).1 (m.call key c).1 ∧
      (AvlTree.call compare t c).2.answers (m.call key c).2 := by
  have hrel := h
  obtain ⟨⟨T, free, hw, hrec⟩, hcmp, hmax, hpos, hlt⟩ := h
  have hequal : ∀ x cmp, cmp ≠ .less → cmp ≠ .greater →
      AvlTree.call compare t (.delete x cmp) = AvlTree.step compare t (.delete x) := fun x cmp hl hg => by
    have hmode : t.delete compare x cmp = t.delete compare x .equal := delete_mode hl hg t
    cases hdelete : t.delete compare x .equal with
    | none => simp only [AvlTree.call, AvlTree.step, hmode, hdelete]
    | some r => simp only [AvlTree.call, AvlTree.step, hmode, hdelete]
  have hnil : ∀ x cmp, T = nil →
      AvlTree.call compare t (.delete x cmp) = AvlTree.step compare t (.delete x) := fun x cmp hT => by
    subst hT
    rw [AvlTree.call, AvlTree.step, hw.delete_nil, hw.delete_nil]
  have hempty : m.records = [] ↔ T = nil := by
    rw [hrec]
    constructor
    · intro hr
      cases T with
      | nil => rfl
      | node n l r => simp [records] at hr
    · rintro rfl
      rfl
  have hstep : ∀ op, MapRel compare key (AvlTree.step compare t op).1 (m.step key op).1 ∧
      (AvlTree.step compare t op).2.answers (m.step key op).2 := fun op =>
    ⟨(hrel.step op).1, (hrel.step op).2.1⟩
  cases c with
  | insert x => exact hstep (.insert x)
  | clear => exact hstep .clear
  | delete x cmp =>
    cases cmp with
    | lessOrEqual =>
      rw [hequal x _ (by decide) (by decide)]
      exact hstep (.delete x)
    | equal =>
      rw [hequal x _ (by decide) (by decide)]
      exact hstep (.delete x)
    | greaterOrEqual =>
      rw [hequal x _ (by decide) (by decide)]
      exact hstep (.delete x)
    | less =>
      by_cases hT : T = nil
      · rw [hnil x _ hT]
        simp only [SortedMap.call, hempty.mpr hT]
        exact hstep (.delete x)
      · obtain ⟨t', T', f, y, heq, hw', hrec', hindex, hnb⟩ :=
          hw.delete_outermost compare x (e := leftSubTree) (by decide) hT
        have heq' : t.delete compare x .less = some (t', some y) := heq
        have hrec'' : records T = y :: records T' := hrec'
        simp only [AvlTree.call, heq', SortedMap.call, hrec, hrec'']
        exact ⟨hrel.of_same hw' rfl hindex hnb rfl, rfl⟩
    | greater =>
      by_cases hT : T = nil
      · rw [hnil x _ hT]
        simp only [SortedMap.call, hempty.mpr hT, List.getLast?_nil]
        exact hstep (.delete x)
      · obtain ⟨t', T', f, y, heq, hw', hrec', hindex, hnb⟩ :=
          hw.delete_outermost compare x (e := rightSubTree) (by decide) hT
        have heq' : t.delete compare x .greater = some (t', some y) := heq
        have hrec'' : records T = records T' ++ [y] := by
          have hrev : (records T).reverse = y :: (records T').reverse := hrec'
          rw [List.reverse_eq_iff] at hrev
          rw [hrev, List.reverse_cons, List.reverse_reverse]
        simp only [AvlTree.call, heq', SortedMap.call, hrec, hrec'', List.getLast?_concat,
          List.dropLast_concat]
        exact ⟨hrel.of_same hw' rfl hindex hnb rfl, rfl⟩

/-- After every run the tree and the map hold the same records, and no call is stuck. -/
theorem callRel {nbMaxElement index : Nat} (hcmp : ComparesBy (compare index) key) (hpos : 0 < nbMaxElement)
    (hlt : nbMaxElement < 4294967296) (calls : List (Call ρ)) :
    MapRel compare key (run (call compare) (create nbMaxElement index) calls).1
        (run (SortedMap.call key) ⟨nbMaxElement, []⟩ calls).1 ∧
      List.Forall₂ Out.answers (run (call compare) (create nbMaxElement index) calls).2
        (run (SortedMap.call key) ⟨nbMaxElement, []⟩ calls).2 := by
  have hcreate : MapRel compare key (create nbMaxElement index) ⟨nbMaxElement, []⟩ :=
    ⟨⟨nil, _, wellFormed_create hpos index, rfl⟩, hcmp, rfl, hpos, hlt⟩
  exact sim_run_rel (fun t m c h _ => h.call c) hcreate (meets_of_forall (fun _ _ => trivial) _ calls)

end BofStd.AvlTree

/-!
# `BofAvlTree`: the closest key

The searches for `>=` and `<=` are treated once, for the side `e` from which the nodes are counted: both look
for the first node that is not before the key. When the descent through a subtree has missed the key, the climb
from its last node stops at this node, or it comes to the root of the subtree when all its nodes are before the
key (`searchDown_climb`).
-/

namespace BofStd.AvlTree

open WhichAvlSubTree BinaryTree Machine

variable {ρ K : Type} [LinearOrder K] {compare : Nat → ρ → ρ → BofCmp} {key : ρ → K}
  {t : AvlTree ρ} {T : BinaryTree (Nat × ρ)} {free : List Nat} {x : ρ} {par : Option Nat}
  {p q : Nat} {e : WhichAvlSubTree}

/-! ## The order from one side -/

/-- `y` comes before `z` when one counts from the side `e`. -/
def Before (key : ρ → K) (e : WhichAvlSubTree) (y z : ρ) : Prop :=
  if e = leftSubTree then key y < key z else key z < key y

instance (key : ρ → K) (e : WhichAvlSubTree) (y z : ρ) : Decidable (Before key e y z) :=
  inferInstanceAs (Decidable (if e = leftSubTree then key y < key z else key z < key y))

theorem Before.trans {y z w : ρ} (h : Before key e y z) (h' : Before key e z w) : Before key e y w := by
  unfold Before at *
  split
  · next he =>
    rw [if_pos he] at h h'
    exact h.trans h'
  · next he =>
    rw [if_neg he] at h h'
    exact h'.trans h

theorem Before.asymm {y z : ρ} (h : Before key e y z) : ¬Before key e z y := by
  unfold Before at *
  split
  · next he =>
    rw [if_pos he] at h
    exact not_lt_of_gt h
  · next he =>
    rw [if_neg he] at h
    exact not_lt_of_gt h

/-- Only the keys matter. -/
theorem before_congr {y z w : ρ} (h : key z = key w) : Before key e y z ↔ Before key e y w := by
  unfold Before
  rw [h]

theorem Ascending.pairwise_from (h : Ascending key T) (e : WhichAvlSubTree) :
    (T.inorderFrom (isMirror e)).Pairwise fun m n => Before key e m.2 n.2 := by
  rw [Ascending, records, List.pairwise_map] at h
  unfold Before
  cases e with
  | leftSubTree => exact h
  | rightSubTree => exact List.pairwise_reverse.mpr h
  | parentSubTree => exact List.pairwise_reverse.mpr h

/-- What a node answers to a key other than its own. -/
theorem compareNode_before {y : ρ} (hcmp : ComparesBy (compare t.mIndex_U32) key) (hy : t.data p = some y)
    (he : e ≠ parentSubTree) (hne : key y ≠ key x) :
    t.compareNode compare p x .equal = if Before key e y x then wanted e.opposite else wanted e := by
  rw [compareNode_equal hcmp hy, if_neg hne.symm]
  unfold Before
  cases e with
  | leftSubTree =>
    rcases lt_or_gt_of_ne hne with hlt | hlt
    · simp [hlt, not_lt_of_gt hlt, wanted, opposite]
    · have hlt' : key x < key y := hlt
      simp [hlt', not_lt_of_gt hlt', wanted]
  | rightSubTree =>
    rcases lt_or_gt_of_ne hne with hlt | hlt
    · simp [not_lt_of_gt hlt, wanted]
    · simp [hlt, wanted, opposite]
  | parentSubTree => exact absurd rfl he

/-! ## The climb after the descent -/

/-- What `Search` returns when the descent has ended at `p` with the comparison `c` there. -/
def searchFrom (compare : Nat → ρ → ρ → BofCmp) (fuel : Nat) (t : AvlTree ρ) (key : ρ) (wanted : BofCmp) (p : Nat)
    (c : BofCmp) : Option (Option Nat) :=
  if c = wanted then some (some p) else searchUp compare fuel t key wanted p

/-- The first node that is not before the key. -/
def firstFrom (key : ρ → K) (e : WhichAvlSubTree) (x : ρ) (l : List (Nat × ρ)) : Option (Nat × ρ) :=
  l.find? fun n => ¬Before key e n.2 x

theorem wanted_opposite_ne (he : e ≠ parentSubTree) : wanted e.opposite ≠ wanted e := by
  cases e with
  | leftSubTree => decide
  | rightSubTree => decide
  | parentSubTree => exact absurd rfl he

/-- One step of the climb of `Search`. -/
theorem searchUp_succ (fuel : Nat) {w : BofCmp} (hpar : t.subTree q parentSubTree = some p) :
    searchUp compare (fuel + 1) t x w q =
      if t.compareNode compare p x .equal = w then some (some p) else searchUp compare fuel t x w p := by
  rw [searchUp, hpar]

/-- The nodes of the near subtree and the root are before the key, if the root is. -/
theorem firstFrom_far {a b : List (Nat × ρ)} {n : Nat × ρ}
    (hord : (a ++ n :: b).Pairwise fun m n => Before key e m.2 n.2) (hn : Before key e n.2 x) :
    firstFrom key e x (a ++ n :: b) = firstFrom key e x b := by
  have ha : ∀ m ∈ a, Before key e m.2 x := fun m hm =>
    Before.trans ((List.pairwise_append.mp hord).2.2 m hm n List.mem_cons_self) hn
  unfold firstFrom
  rw [List.find?_append, List.find?_cons_of_neg (by simp [hn]), List.find?_eq_none.mpr, Option.none_or]
  intro m hm
  simp [ha m hm]

theorem firstFrom_near {a b : List (Nat × ρ)} {n : Nat × ρ} (hn : ¬Before key e n.2 x) :
    firstFrom key e x (a ++ n :: b) = some ((firstFrom key e x a).getD n) := by
  unfold firstFrom
  rw [List.find?_append, List.find?_cons_of_pos (by simp [hn])]
  cases a.find? fun n => ¬Before key e n.2 x <;> rfl

/-- The descent misses the key, and the climb finds the first node of the subtree that is not before the key, or
goes on from its root. -/
theorem searchDown_climb (hcmp : ComparesBy (compare t.mIndex_U32) key) (he : e ≠ parentSubTree) {fuel : Nat}
    (hfuel : T.height < fuel) (h : Represents t par (some q) T)
    (hord : (T.inorderFrom (isMirror e)).Pairwise fun m n => Before key e m.2 n.2)
    (hnew : ∀ n ∈ T.inorder, key n.2 ≠ key x) (prev : Option Nat × BofCmp) :
    ∃ p c, searchDown compare fuel t x .equal (some q) prev = some (none, some p, c) ∧
      ∃ k < T.height, ∀ fuel, searchFrom compare (fuel + k) t x (wanted e) p c =
        match firstFrom key e x (T.inorderFrom (isMirror e)) with
        | some n => some (some n.1)
        | none => searchUp compare fuel t x (wanted e) q := by
  induction T using join_induction (isMirror e) generalizing fuel par q prev with
  | nil => exact absurd (represents_nil.mp h) (Option.some_ne_none q)
  | join a n b iha ihb =>
    obtain ⟨i, y⟩ := n
    obtain ⟨hq, hy, -, -, ha, hb⟩ := (represents_join he).mp h
    obtain rfl : q = i := Option.some.inj hq
    obtain ⟨fuel, rfl⟩ := Nat.exists_eq_succ_of_ne_zero (Nat.ne_of_gt (Nat.zero_lt_of_lt hfuel))
    rw [height_join] at hfuel ⊢
    rw [inorderFrom_join] at hord ⊢
    have hnewa : ∀ n ∈ a.inorder, key n.2 ≠ key x := fun n hn =>
      hnew n (mem_inorder_join.mpr (Or.inr (Or.inl hn)))
    have hnewb : ∀ n ∈ b.inorder, key n.2 ≠ key x := fun n hn =>
      hnew n (mem_inorder_join.mpr (Or.inr (Or.inr hn)))
    have hne : key y ≠ key x := hnew (q, y) (mem_inorder_join.mpr (Or.inl rfl))
    have hc := compareNode_before hcmp hy he hne
    obtain ⟨horda, hordb, -⟩ := List.pairwise_append.mp hord
    by_cases hbefore : Before key e y x
    · -- the root is before the key: the descent goes to the far side
      rw [if_pos hbefore] at hc
      have hdown : searchDown compare (fuel + 1) t x .equal (some q) prev =
          searchDown compare fuel t x .equal (t.subTree q e.opposite) (some q, wanted e.opposite) := by
        rw [searchDown]
        simp only [hc, direction_wanted (opposite_ne_parent e)]
        rw [if_neg (by unfold wanted; split <;> decide)]
      rw [firstFrom_far hord hbefore, hdown]
      cases hsub : t.subTree q e.opposite with
      | none =>
        rw [hsub] at hb
        obtain ⟨fuel, rfl⟩ := Nat.exists_eq_succ_of_ne_zero (show fuel ≠ 0 by omega)
        refine ⟨q, wanted e.opposite, by rw [searchDown], 0, Nat.succ_pos _, fun fuel => ?_⟩
        rw [hb.eq_nil, inorderFrom_nil, searchFrom, if_neg (wanted_opposite_ne he)]
        rfl
      | some r =>
        rw [hsub] at hb
        obtain ⟨p, c, hdown', k, hk, hclimb⟩ := ihb (show b.height < fuel by omega) hb
          (List.pairwise_cons.mp hordb).2 hnewb (some q, wanted e.opposite)
        refine ⟨p, c, hdown', k + 1, by omega, fun fuel => ?_⟩
        rw [show fuel + (k + 1) = fuel + 1 + k by omega, hclimb]
        cases firstFrom key e x (b.inorderFrom (isMirror e)) with
        | some n => rfl
        | none =>
          show searchUp compare (fuel + 1) t x (wanted e) r = searchUp compare fuel t x (wanted e) q
          rw [searchUp_succ fuel (hb.parent_eq r rfl), hc, if_neg (wanted_opposite_ne he)]
    · rw [if_neg hbefore] at hc
      have hdown : searchDown compare (fuel + 1) t x .equal (some q) prev =
          searchDown compare fuel t x .equal (t.subTree q e) (some q, wanted e) := by
        rw [searchDown]
        simp only [hc, direction_wanted he]
        rw [if_neg (by unfold wanted; split <;> decide)]
      rw [firstFrom_near hbefore, hdown]
      cases hsub : t.subTree q e with
      | none =>
        rw [hsub] at ha
        obtain ⟨fuel, rfl⟩ := Nat.exists_eq_succ_of_ne_zero (show fuel ≠ 0 by omega)
        refine ⟨q, wanted e, by rw [searchDown], 0, Nat.succ_pos _, fun fuel => ?_⟩
        rw [ha.eq_nil, inorderFrom_nil, searchFrom, if_pos rfl]
        rfl
      | some r =>
        rw [hsub] at ha
        obtain ⟨p, c, hdown', k, hk, hclimb⟩ := iha (show a.height < fuel by omega) ha horda hnewa
          (some q, wanted e)
        refine ⟨p, c, hdown', k + 1, by omega, fun fuel => ?_⟩
        rw [show fuel + (k + 1) = fuel + 1 + k by omega, hclimb]
        cases firstFrom key e x (a.inorderFrom (isMirror e)) with
        | some n => rfl
        | none =>
          show searchUp compare (fuel + 1) t x (wanted e) r = some (some q)
          rw [searchUp_succ fuel (ha.parent_eq r rfl), hc, if_pos rfl]

/-! ## The search -/

/-- The mode in which `Search` looks for the first node from the side `e` that is not before the key. -/
def nearestMode (e : WhichAvlSubTree) : BofCmp := if e = leftSubTree then .greaterOrEqual else .lessOrEqual

theorem searchNode_nearest (e : WhichAvlSubTree) (fuel : Nat) (root : Option Nat) :
    searchNode compare fuel t x root (nearestMode e) =
      (searchDown compare fuel t x .equal root (none, .equal)).bind fun
        | (some p, _) => some (some p)
        | (none, none, _) => some none
        | (none, some p, c) => searchFrom compare fuel t x (wanted e) p c := by
  have hmode : nearestMode e = .lessOrEqual ∨ nearestMode e = .greaterOrEqual := by
    unfold nearestMode
    split
    · exact Or.inr rfl
    · exact Or.inl rfl
  have hwanted : (if nearestMode e = .greaterOrEqual then .less else .greater : BofCmp) = wanted e := by
    unfold nearestMode wanted
    split <;> rfl
  rw [searchNode, if_pos hmode]
  simp only [hwanted]
  cases searchDown compare fuel t x .equal root (none, .equal) with
  | none => rfl
  | some res =>
    obtain ⟨found, prev, c⟩ := res
    cases found with
    | some p => rfl
    | none => cases prev <;> rfl

/-- `Search` for the closest key finds the first node from the side `e` that is not before it. -/
theorem WellFormed.search_nearest (h : WellFormed key t T free) (hcmp : ComparesBy (compare t.mIndex_U32) key)
    (he : e ≠ parentSubTree) : t.search compare x (nearestMode e) =
      some ((firstFrom key e x (T.inorderFrom (isMirror e))).map Prod.fst) := by
  have hord := h.ascending.pairwise_from e
  rw [search, searchNode_nearest]
  by_cases hex : ∃ n ∈ T.inorder, key n.2 = key x
  · obtain ⟨n, hn, hkey⟩ := hex
    obtain ⟨prev, heq⟩ := searchDown_present hcmp h.height_lt h.tree h.ascending hn hkey (none, .equal)
    obtain ⟨l, l', hl⟩ := List.append_of_mem ((mem_inorderFrom (m := isMirror e)).mpr hn)
    have hlast : ¬Before key e n.2 x := fun hb => ((before_congr hkey).mpr hb).asymm ((before_congr hkey).mpr hb)
    have hnone : firstFrom key e x l = none := by
      refine List.find?_eq_none.mpr fun m hm => ?_
      rw [hl] at hord
      have hb := (before_congr hkey).mp ((List.pairwise_append.mp hord).2.2 m hm n List.mem_cons_self)
      simp [hb]
    rw [heq, hl, firstFrom_near hlast, hnone]
    rfl
  · have hnew : ∀ n ∈ T.inorder, key n.2 ≠ key x := fun n hn hkey => hex ⟨n, hn, hkey⟩
    have htree := h.tree
    cases hroot : t.mpRoot with
    | none =>
      rw [hroot] at htree
      rw [htree.eq_nil, inorderFrom_nil, fuel, searchDown]
      rfl
    | some q =>
      rw [hroot] at htree
      obtain ⟨p, c, hdown, k, hk, hclimb⟩ :=
        searchDown_climb hcmp he h.height_lt htree hord hnew (none, .equal)
      have hlt := h.height_lt
      obtain ⟨fuel, hfuel⟩ : ∃ fuel, t.fuel = fuel + 1 + k := ⟨t.fuel - k - 1, by omega⟩
      rw [hdown]
      show searchFrom compare t.fuel t x (wanted e) p c = _
      rw [hfuel, hclimb]
      cases firstFrom key e x (T.inorderFrom (isMirror e)) with
      | some n => rfl
      | none =>
        show searchUp compare (fuel + 1) t x (wanted e) q = some none
        rw [searchUp, htree.parent_eq q rfl]

/-! ## Whole runs -/

omit [LinearOrder K] in
theorem mem_keys_iff {k : K} {l : List ρ} (hT : l = records T) :
    k ∈ keys key l ↔ ∃ n ∈ T.inorder, key n.2 = k := by
  subst hT
  constructor
  · rintro ⟨y, hy, hk⟩
    obtain ⟨n, hn, rfl⟩ := mem_records.mp hy
    exact ⟨n, hn, hk⟩
  · rintro ⟨n, hn, hk⟩
    exact ⟨n.2, mem_records.mpr ⟨n, hn, rfl⟩, hk⟩

/-- What the first node that is not before the key is: no key on this side of it is nearer. -/
theorem WellFormed.firstFrom_spec (h : WellFormed key t T free) (e : WhichAvlSubTree) (x : ρ) :
    (∃ n ∈ T.inorder, ¬Before key e n.2 x ∧ firstFrom key e x (T.inorderFrom (isMirror e)) = some n ∧
      ∀ m ∈ T.inorder, ¬Before key e m.2 x → ¬Before key e m.2 n.2) ∨
    (firstFrom key e x (T.inorderFrom (isMirror e)) = none ∧ ∀ m ∈ T.inorder, Before key e m.2 x) := by
  have hord := h.ascending.pairwise_from e
  cases hfirst : firstFrom key e x (T.inorderFrom (isMirror e)) with
  | none =>
    refine Or.inr ⟨rfl, fun m hm => ?_⟩
    have hm' := List.find?_eq_none.mp hfirst m (mem_inorderFrom.mpr hm)
    simpa using hm'
  | some n =>
    obtain ⟨hn, l, l', hl, hbefore⟩ := List.find?_eq_some_iff_append.mp hfirst
    have hmem : n ∈ T.inorderFrom (isMirror e) := by
      rw [hl]
      exact List.mem_append_right _ List.mem_cons_self
    refine Or.inl ⟨n, mem_inorderFrom.mp hmem, by simpa using hn, rfl, fun m hm hnot => ?_⟩
    rw [← mem_inorderFrom (m := isMirror e), hl] at hm
    rcases List.mem_append.mp hm with hm | hm
    · have hm' := hbefore m hm
      exact absurd (by simpa using hm') hnot
    · rcases List.mem_cons.mp hm with rfl | hm
      · exact fun hb => hb.asymm hb
      · rw [hl] at hord
        exact ((List.pairwise_cons.mp (List.pairwise_append.mp hord).2.1).1 m hm).asymm

/-- In a tree that holds the records of the map, the searches are exact. -/
theorem MapRel.isExactSearch {m : SortedMap ρ} (h : MapRel compare key t m) (x : ρ) :
    IsExactSearch compare key t m.records x := by
  obtain ⟨⟨T, free, hw, hrec⟩, hcmp, -, -, -⟩ := h
  have hnodes := hw.nodes_eq
  refine ⟨?_, ?_, ?_⟩
  · have hsearch := hw.search_nearest (x := x) hcmp (e := leftSubTree) (by decide)
    rw [show t.search compare x .greaterOrEqual = _ from hsearch]
    rcases hw.firstFrom_spec leftSubTree x with ⟨n, hn, hnot, heq, hleast⟩ | ⟨heq, hall⟩
    · rw [heq]
      refine ⟨n.2, by rw [hnodes]; exact hn, ⟨(mem_keys_iff hrec).mpr ⟨n, hn, rfl⟩, not_lt.mp hnot⟩, ?_⟩
      rintro k ⟨hk, hge⟩
      obtain ⟨m, hm, rfl⟩ := (mem_keys_iff hrec).mp hk
      exact not_lt.mp (hleast m hm (not_lt.mpr hge))
    · rw [heq]
      refine Set.eq_empty_iff_forall_notMem.mpr ?_
      rintro k ⟨hk, hge⟩
      obtain ⟨m, hm, rfl⟩ := (mem_keys_iff hrec).mp hk
      exact absurd (hall m hm) (not_lt.mpr hge)
  · have hsearch := hw.search_nearest (x := x) hcmp (e := rightSubTree) (by decide)
    rw [show t.search compare x .lessOrEqual = _ from hsearch]
    rcases hw.firstFrom_spec rightSubTree x with ⟨n, hn, hnot, heq, hgreatest⟩ | ⟨heq, hall⟩
    · rw [heq]
      refine ⟨n.2, by rw [hnodes]; exact hn, ⟨(mem_keys_iff hrec).mpr ⟨n, hn, rfl⟩, not_lt.mp hnot⟩, ?_⟩
      rintro k ⟨hk, hle⟩
      obtain ⟨m, hm, rfl⟩ := (mem_keys_iff hrec).mp hk
      exact not_lt.mp (hgreatest m hm (not_lt.mpr hle))
    · rw [heq]
      refine Set.eq_empty_iff_forall_notMem.mpr ?_
      rintro k ⟨hk, hle⟩
      obtain ⟨m, hm, rfl⟩ := (mem_keys_iff hrec).mp hk
      exact absurd (hall m hm) (not_lt.mpr hle)
  · by_cases hex : ∃ n ∈ T.inorder, key n.2 = key x
    · obtain ⟨n, hn, hkey⟩ := hex
      rw [hw.search_present hcmp hn hkey]
      exact ⟨n.2, by rw [hnodes]; exact hn, (mem_keys_iff hrec).mpr ⟨n, hn, rfl⟩, hkey⟩
    · rw [hw.search_absent hcmp fun n hn hkey => hex ⟨n, hn, hkey⟩]
      refine Set.eq_empty_iff_forall_notMem.mpr ?_
      rintro k ⟨hk, heq⟩
      obtain ⟨m, hm, rfl⟩ := (mem_keys_iff hrec).mp hk
      exact hex ⟨m, hm, heq⟩

/-- After every run, the searches for the closest key on either side and for the key are exact. -/
theorem search_isExact (compare : Nat → ρ → ρ → BofCmp) (key : ρ → K) (nbMaxElement index : Nat)
    (hcmp : ComparesBy (compare index) key) (hpos : 0 < nbMaxElement) (hlt : nbMaxElement < 4294967296)
    (calls : List (Call ρ)) (x : ρ) :
    IsExactSearch compare key (run (call compare) (create nbMaxElement index) calls).1
      (run (SortedMap.call key) ⟨nbMaxElement, []⟩ calls).1.records x :=
  (callRel hcmp hpos hlt calls).1.isExactSearch x

/-- Three records and a key between them. -/
theorem search_isExact_three :
    IsExactSearch (fun _ x y : Nat => if y < x then BofCmp.less else if y = x then .equal else .greater) id
      (run (call fun _ x y : Nat => if y < x then BofCmp.less else if y = x then .equal else .greater)
        (create 4 0) [.insert 5, .insert 3, .insert 9, .delete 0 .greater, .insert 8]).1
      (run (SortedMap.call id) ⟨4, []⟩ [.insert 5, .insert 3, .insert 9, .delete 0 .greater, .insert 8]).1.records 6 :=
  search_isExact _ _ _ _ (fun _ _ => rfl) (by decide) (by decide) _ _

end BofStd.AvlTree
