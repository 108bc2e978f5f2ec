import BofStd.Proofs.AvlNearestProofs

/-!
# `BofAvlTree`: the outermost nodes and the loops over all nodes

`GetFirst` and `GetLast` end at a node without a child on their side, while `Search` with `BOF_CMP_LESS` and
`BOF_CMP_GREATER` stops at the first node that has one, so they never agree. The loops over `GetNext` and
`GetPrevious` visit the nodes of the tree in order.
-/

namespace BofStd.AvlTree

open WhichAvlSubTree BinaryTree Machine

variable {ρ K : Type} [LinearOrder K] {compare : Nat → ρ → ρ → BofCmp} {key : ρ → K}
  {t : AvlTree ρ} {T : BinaryTree (Nat × ρ)} {free : List Nat} {x : ρ} {p q : Nat}
  {e : WhichAvlSubTree}

/-! ## The outermost node -/

theorem walkTo_end {fuel : Nat} (h : walkTo fuel t e q = some p) : t.subTree p e = none := by
  induction fuel generalizing q with
  | zero => exact absurd h (by simp [walkTo])
  | succ fuel ih =>
    rw [walkTo] at h
    cases hsub : t.subTree q e with
    | none =>
      rw [hsub] at h
      obtain rfl : q = p := Option.some.inj h
      exact hsub
    | some r =>
      rw [hsub] at h
      exact ih h

/-- The outermost node has no child on its side. -/
theorem WellFormed.outermost (h : WellFormed key t T free) (he : e ≠ parentSubTree) (hne : T ≠ nil) :
    ∃ n l, T.inorderFrom (isMirror e) = n :: l ∧ t.getOutermost e = some (some n.1) ∧
      t.subTree n.1 e = none := by
  have htree := h.tree
  have hout := h.getOutermost_eq he
  cases hroot : t.mpRoot with
  | none =>
    rw [hroot] at htree
    exact absurd htree.eq_nil hne
  | some root =>
    rw [hroot] at htree
    obtain ⟨n, l, hin, hwalk⟩ := walkTo_spec he h.height_lt htree
    rw [hin] at hout
    exact ⟨n, l, hin, hout, walkTo_end hwalk⟩

/-- `Search` for the outermost node stops at a node that has a child on its side. -/
theorem searchDown_outermost (he : e ≠ parentSubTree) {fuel : Nat} {ptr : Option Nat}
    {prev prev' : Option Nat × BofCmp}
    (h : searchDown compare fuel t x (wanted e) ptr prev = some (some p, prev')) : t.subTree p e ≠ none := by
  induction fuel generalizing ptr prev with
  | zero => exact absurd h (by simp [searchDown])
  | succ fuel ih =>
    cases ptr with
    | none => exact absurd h (by simp [searchDown])
    | some q =>
      have hc := compareNode_wanted (t := t) (p := q) compare x he
      rw [searchDown] at h
      simp only [hc] at h
      by_cases hsub : t.subTree q e = none
      · have hne : ¬BofCmp.equal = wanted e := by
          unfold wanted
          split <;> decide
        rw [if_pos hsub, if_neg hne] at h
        exact ih h
      · rw [if_neg hsub, if_pos rfl] at h
        obtain rfl : q = p := Option.some.inj (congrArg Prod.fst (Option.some.inj h))
        exact hsub

theorem search_outermost (he : e ≠ parentSubTree) (h : t.search compare x (wanted e) = some (some p)) :
    t.subTree p e ≠ none := by
  have hmode : ¬(wanted e = .lessOrEqual ∨ wanted e = .greaterOrEqual) := by
    unfold wanted
    split <;> decide
  rw [search, searchNode, if_neg hmode] at h
  cases hdown : searchDown compare t.fuel t x (wanted e) t.mpRoot (none, .equal) with
  | none =>
    rw [hdown] at h
    exact absurd h (by simp)
  | some res =>
    obtain ⟨found, prev⟩ := res
    rw [hdown] at h
    obtain rfl : found = some p := Option.some.inj h
    exact searchDown_outermost he hdown

variable (compare x) in
/-- What `Search` for the outermost node finds is another node. -/
theorem WellFormed.search_ne_outermost (h : WellFormed key t T free) (he : e ≠ parentSubTree) (hne : T ≠ nil) :
    ∃ n l, T.inorderFrom (isMirror e) = n :: l ∧ t.getOutermost e = some (some n.1) ∧
      t.search compare x (wanted e) ≠ some (some n.1) := by
  obtain ⟨n, l, hin, hout, hsub⟩ := h.outermost he hne
  exact ⟨n, l, hin, hout, fun heq => search_outermost he heq hsub⟩

/-- The node with an extreme key is the outermost one. -/
theorem WellFormed.eq_outermost (h : WellFormed key t T free) {n m : Nat × ρ} {l : List (Nat × ρ)}
    (hin : T.inorderFrom (isMirror e) = n :: l) (hm : m ∈ T.inorder)
    (hall : ¬Before key e n.2 m.2) : m = n := by
  rw [← mem_inorderFrom (m := isMirror e), hin] at hm
  rcases List.mem_cons.mp hm with rfl | hm
  · rfl
  · have hord := h.ascending.pairwise_from e
    rw [hin] at hord
    exact absurd ((List.pairwise_cons.mp hord).1 m hm) hall

theorem MapRel.search_extremum_ne {m : SortedMap ρ} (h : MapRel compare key t m) (hne : m.records ≠ []) (x : ρ) :
    t.search compare x .less ≠ t.getFirst ∧ t.search compare x .greater ≠ t.getLast ∧
      ¬PointsTo key t IsLeast (keys key m.records) (t.search compare x .less) ∧
      ¬PointsTo key t IsGreatest (keys key m.records) (t.search compare x .greater) := by
  obtain ⟨⟨T, free, hw, hrec⟩, -, -, -, -⟩ := h
  have hT : T ≠ nil := by
    rintro rfl
    exact hne hrec
  have hnodes := hw.nodes_eq
  have hkeys : ∀ n ∈ T.inorder, key n.2 ∈ keys key m.records := fun n hn => (mem_keys_iff hrec).mpr ⟨n, hn, rfl⟩
  have hnonempty : keys key m.records ≠ ∅ := by
    obtain ⟨y, hy⟩ := List.exists_mem_of_ne_nil _ hne
    exact Set.nonempty_iff_ne_empty.mp ⟨key y, y, hy, rfl⟩
  obtain ⟨n, l, hin, hfirst, hless⟩ :=
    hw.search_ne_outermost compare x (e := leftSubTree) (by decide) hT
  obtain ⟨n', l', hin', hlast, hgreater⟩ :=
    hw.search_ne_outermost compare x (e := rightSubTree) (by decide) hT
  have hn : n ∈ T.inorder := mem_inorderFrom.mp (by rw [hin]; exact List.mem_cons_self)
  have hn' : n' ∈ T.inorder := mem_inorderFrom.mp (by rw [hin']; exact List.mem_cons_self)
  refine ⟨?_, ?_, fun hp => ?_, fun hp => ?_⟩
  · rw [show t.getFirst = _ from hfirst]
    exact hless
  · rw [show t.getLast = _ from hlast]
    exact hgreater
  · cases hs : t.search compare x .less with
    | none =>
      rw [hs] at hp
      exact hp
    | some r =>
      rw [hs] at hp
      cases r with
      | none => exact hnonempty hp
      | some p =>
        obtain ⟨y, hy, hleast⟩ := hp
        rw [hnodes] at hy
        have heq := hw.eq_outermost hin hy (not_lt.mpr (hleast.2 (hkeys n hn)))
        exact hless (by rw [← heq]; exact hs)
  · cases hs : t.search compare x .greater with
    | none =>
      rw [hs] at hp
      exact hp
    | some r =>
      rw [hs] at hp
      cases r with
      | none => exact hnonempty hp
      | some p =>
        obtain ⟨y, hy, hgreatest⟩ := hp
        rw [hnodes] at hy
        have heq := hw.eq_outermost hin' hy (not_lt.mpr (hgreatest.2 (hkeys n' hn')))
        exact hgreater (by rw [← heq]; exact hs)

/-- In no tree that is not empty do `BOF_CMP_LESS` and `BOF_CMP_GREATER` find the first and the last node. -/
theorem search_extremum_never (compare : Nat → ρ → ρ → BofCmp) (key : ρ → K) (nbMaxElement index : Nat)
    (hcmp : ComparesBy (compare index) key) (hpos : 0 < nbMaxElement) (hlt : nbMaxElement < 4294967296)
    (calls : List (Call ρ)) (hne : (run (SortedMap.call key) ⟨nbMaxElement, []⟩ calls).1.records ≠ []) (x : ρ) :
    let t := (run (call compare) (create nbMaxElement index) calls).1
    let m := (run (SortedMap.call key) ⟨nbMaxElement, []⟩ calls).1
    t.search compare x .less ≠ t.getFirst ∧ t.search compare x .greater ≠ t.getLast ∧
      ¬PointsTo key t IsLeast (keys key m.records) (t.search compare x .less) ∧
      ¬PointsTo key t IsGreatest (keys key m.records) (t.search compare x .greater) :=
  (callRel hcmp hpos hlt calls).1.search_extremum_ne hne x

/-- Two records. -/
theorem search_extremum_never_two :
    let compare := fun _ x y : Nat => if y < x then BofCmp.less else if y = x then .equal else .greater
    let t := (run (call compare) (create 4 0) [.insert 5, .insert 3]).1
    let m := (run (SortedMap.call id) ⟨4, []⟩ [.insert 5, .insert 3]).1
    t.search compare 5 .less ≠ t.getFirst ∧ t.search compare 5 .greater ≠ t.getLast ∧
      ¬PointsTo id t IsLeast (keys id m.records) (t.search compare 5 .less) ∧
      ¬PointsTo id t IsGreatest (keys id m.records) (t.search compare 5 .greater) :=
  search_extremum_never _ _ _ _ (fun _ _ => rfl) (by decide) (by decide) _ (by decide) _

/-- With the records 3 and 5, the search for the first node finds the node of 5, which has a left child, and the
search for the last one nothing. -/
theorem not_isExtremumSearch_two :
    let compare := fun _ x y : Nat => if y < x then BofCmp.less else if y = x then .equal else .greater
    let t := (run (call compare) (create 4 0) [.insert 5, .insert 3]).1
    (t.search compare 5 .less = some (some 0) ∧ t.getFirst = some (some 1) ∧
      t.search compare 5 .greater = some none ∧ t.getLast = some (some 0)) ∧
      ¬IsExtremumSearch compare id t [3, 5] 5 := by
  refine ⟨by decide, fun h => ?_⟩
  exact absurd h.first (by decide)

/-! ## The loops -/

/-- The loop from one node on visits it and the nodes behind it. -/
theorem WellFormed.visits_eq (h : WellFormed key t T free) (hcmp : ComparesBy (compare t.mIndex_U32) key)
    (he : e ≠ parentSubTree) {l l' : List (Nat × ρ)} (hin : T.inorderFrom (isMirror e) = l ++ l') {fuel : Nat}
    (hfuel : l'.length < fuel) :
    visits (t.getNeighbour compare e.opposite (wanted e)) fuel (l'.head?.map Prod.fst) =
      some (l'.map Prod.fst) := by
  obtain ⟨fuel, rfl⟩ := Nat.exists_eq_succ_of_ne_zero (Nat.ne_of_gt (Nat.zero_lt_of_lt hfuel))
  induction l' generalizing l fuel with
  | nil => rfl
  | cons n l' ih =>
    rw [List.length_cons] at hfuel
    obtain ⟨fuel, rfl⟩ := Nat.exists_eq_succ_of_ne_zero (show fuel ≠ 0 by omega)
    have hnext := h.getNeighbour_eq hcmp he hin
    have hrest := ih (l := l ++ [n]) (by rw [hin, List.append_assoc]; rfl) fuel (by omega)
    show (do
      let q ← t.getNeighbour compare e.opposite (wanted e) (some n.1)
      let l ← visits (t.getNeighbour compare e.opposite (wanted e)) (fuel + 1) q
      return n.1 :: l) = _
    rw [hnext]
    simp only [Option.bind_eq_bind, Option.bind_some, hrest]
    rfl

theorem WellFormed.visits_outermost (h : WellFormed key t T free) (hcmp : ComparesBy (compare t.mIndex_U32) key)
    (he : e ≠ parentSubTree) : (do
      let p ← t.getOutermost e
      visits (t.getNeighbour compare e.opposite (wanted e)) (T.inorder.length + 1) p) =
        some ((T.inorderFrom (isMirror e)).map Prod.fst) := by
  have hlen : (T.inorderFrom (isMirror e)).length = T.inorder.length := by
    unfold inorderFrom
    split
    · exact List.length_reverse
    · rfl
  have hfuel : (T.inorderFrom (isMirror e)).length < T.inorder.length + 1 := by omega
  rw [h.getOutermost_eq he]
  exact h.visits_eq hcmp he (l := []) rfl hfuel

theorem MapRel.isComplete {m : SortedMap ρ} (h : MapRel compare key t m) : IsComplete compare key t m.records := by
  obtain ⟨⟨T, free, hw, hrec⟩, hcmp, -, -, -⟩ := h
  refine ⟨by rw [hrec]; exact hw.ascending, T.inorder.length + 1, ids T,
    hw.visits_outermost (e := leftSubTree) hcmp (by decide), ?_, (List.nodup_append'.mp hw.nodup).1, ?_⟩
  · rw [ids, ← List.map_reverse]
    exact hw.visits_outermost (e := rightSubTree) hcmp (by decide)
  · rw [hrec, ids, records, List.map_map, List.map_map]
    exact List.map_congr_left fun n hn => hw.tree.data_of_mem hn

/-- After every run, the loop over `GetNext` from the first node visits every record once, in ascending order,
and the loop over `GetPrevious` from the last node in descending order. -/
theorem iteration_isComplete (compare : Nat → ρ → ρ → BofCmp) (key : ρ → K) (nbMaxElement index : Nat)
    (hcmp : ComparesBy (compare index) key) (hpos : 0 < nbMaxElement) (hlt : nbMaxElement < 4294967296)
    (calls : List (Call ρ)) :
    IsComplete compare key (run (call compare) (create nbMaxElement index) calls).1
      (run (SortedMap.call key) ⟨nbMaxElement, []⟩ calls).1.records :=
  (callRel hcmp hpos hlt calls).1.isComplete

/-- Five records, of which one is deleted. -/
theorem iteration_isComplete_five :
    IsComplete (fun _ x y : Nat => if y < x then BofCmp.less else if y = x then .equal else .greater) id
      (run (call fun _ x y : Nat => if y < x then BofCmp.less else if y = x then .equal else .greater)
        (create 5 0) [.insert 1, .insert 2, .insert 3, .insert 4, .insert 5, .delete 2 .equal]).1
      (run (SortedMap.call id) ⟨5, []⟩
        [.insert 1, .insert 2, .insert 3, .insert 4, .insert 5, .delete 2 .equal]).1.records :=
  iteration_isComplete _ _ _ _ (fun _ _ => rfl) (by decide) (by decide) _

end BofStd.AvlTree
