import BofStd.Proofs.RamDbProofs

/-!
# `BofRamDb`: the cursors

`StandsAt` says that a cursor points to a node of its tree. Such a cursor returns the record of the node
and its neighbours in the index (`StandsAt.follows`). The calls that place a cursor place it so
(`standsAt_placed`), and a call that does not disturb it leaves it so, as long as the record is stored
(`StandsAt.step`). The last runs show the two ways in which a cursor is disturbed.
-/

namespace BofStd.RamDb

open AvlTree BinaryTree Machine WhichAvlSubTree

variable {R : Type} {K : Nat → Type} [∀ i, LinearOrder (K i)] {kt : RamDbKeyType R}
  {key : ∀ i, R → K i} {s s' : RamDb R} {slots free : List Nat} {c p e i : Nat} {r : R}
  {d : WhichAvlSubTree}

/-! ## The order of an index -/

/-- What is on the right of `a` in a list that is ordered by an asymmetric relation. -/
theorem mem_right_of_rel {α : Type} {rel : α → α → Prop} {l l' : List α} {a b : α}
    (hsorted : (l ++ a :: l').Pairwise rel) (hasymm : ∀ x y, rel x y → ¬ rel y x)
    (hb : b ∈ l ++ a :: l') (hab : rel a b) : b ∈ l' := by
  rw [List.pairwise_append] at hsorted
  rcases List.mem_append.mp hb with hb | hb
  · exact absurd (hsorted.2.2 b hb a List.mem_cons_self) (hasymm a b hab)
  · rcases List.mem_cons.mp hb with rfl | hb
    · exact absurd hab (hasymm b b hab)
    · exact hb

/-- `y` comes after `x` in the index `i`, counted from the side `d`. -/
def Beyond (kt : RamDbKeyType R) (d : WhichAvlSubTree) (i : Nat) (x y : R) : Prop :=
  kt.compare i y x = wanted d

theorem Beyond.asymm (hkt : ∀ i, ComparesBy (kt.compare i) (key i)) (x y : R)
    (h : Beyond kt d i x y) : ¬ Beyond kt d i y x := by
  intro h'
  unfold Beyond wanted at h h'
  rw [hkt i] at h h'
  by_cases hside : d = leftSubTree
  · rw [if_pos hside] at h h'
    split at h
    · rename_i hlt
      rw [if_neg (not_lt_of_gt hlt)] at h'
      split at h' <;> exact absurd h' (by simp)
    · split at h <;> exact absurd h (by simp)
  · rw [if_neg hside] at h h'
    split at h
    · exact absurd h (by simp)
    · split at h
      · exact absurd h (by simp)
      · rename_i hlt hne
        rw [if_pos (lt_of_le_of_ne (not_lt.mp hlt) (Ne.symm hne))] at h'
        exact absurd h' (by simp)

/-- The nodes of a tree are ordered. -/
theorem pairwise_beyond {t : AvlTree (RamDbPtr R)} {T : BinaryTree (Nat × RamDbPtr R)}
    {l : List Nat} (hkt : ∀ i, ComparesBy (kt.compare i) (key i)) (hside : d ≠ parentSubTree)
    (h : WellFormed (keyOf key s i) t T l) :
    (T.inorderFrom (isMirror d)).Pairwise
      fun m n => Beyond kt d i (s.deref m.2) (s.deref n.2) := by
  have hasc := h.ascending
  rw [Ascending, records, List.pairwise_map] at hasc
  cases d with
  | leftSubTree =>
    refine hasc.imp fun {m n} hlt => ?_
    show kt.compare i _ _ = _
    rw [hkt i]
    exact if_pos hlt
  | rightSubTree =>
    show T.inorder.reverse.Pairwise _
    rw [List.pairwise_reverse]
    refine hasc.imp fun {m n} hlt => ?_
    show kt.compare i _ _ = _
    rw [hkt i]
    have hlt' : key i (s.deref m.2) < key i (s.deref n.2) := hlt
    rw [if_neg (not_lt_of_gt hlt'), if_neg (ne_of_gt hlt')]
    rfl
  | parentSubTree => exact absurd rfl hside

/-! ## A cursor on a node of its tree -/

/-- The cursor `c` points to the node `p` of its tree, which points to the element `e`. -/
structure StandsAt (s : RamDb R) (c p e : Nat) : Prop where
  isOpen : s.isOpen (some c) = true
  index : (s.mpCursorState_X c).Index_U32 < s.mNbIndex_U32
  pElement : (s.mpCursorState_X c).pElement = some ((s.mpCursorState_X c).Index_U32, p)
  node : (p, .element e) ∈ (s.mppRamDbTree (s.mpCursorState_X c).Index_U32).nodes

/-- The records are those of the elements that the trees point to. -/
theorem DbRel.stores_iff (h : DbRel key s slots free) : s.Stores r ↔ ∃ e ∈ slots, s.mpElementList e = r := by
  unfold Stores
  rw [h.slotSet_eq h.nbIndex]
  constructor
  · rintro ⟨e, he, hr⟩
    exact ⟨e, List.mem_toFinset.mp he, hr⟩
  · rintro ⟨e, he, hr⟩
    exact ⟨e, List.mem_toFinset.mpr he, hr⟩

/-- The nodes of a tree point to the elements. -/
theorem Holds.mem_nodes {t : AvlTree (RamDbPtr R)} (h : Holds key s i t slots) {n : Nat × RamDbPtr R}
    (hn : n ∈ t.nodes) : ∃ e ∈ slots, n.2 = .element e := by
  obtain ⟨T, free, hw, hperm⟩ := h.tree
  rw [hw.nodes_eq] at hn
  obtain ⟨e, he, hen⟩ := List.mem_map.mp (hperm.mem_iff.mp (mem_records.mpr ⟨n, hn, rfl⟩))
  exact ⟨e, he, hen.symm⟩

/-- Every element is in a node. -/
theorem Holds.exists_node {t : AvlTree (RamDbPtr R)} (h : Holds key s i t slots) (he : e ∈ slots) :
    ∃ n ∈ t.nodes, n.2 = .element e := by
  obtain ⟨T, free, hw, hperm⟩ := h.tree
  rw [hw.nodes_eq]
  exact mem_records.mp (hperm.mem_iff.mpr (List.mem_map_of_mem he))

theorem Holds.data_eq {t : AvlTree (RamDbPtr R)} (h : Holds key s i t slots) {n : Nat × RamDbPtr R}
    (hn : n ∈ t.nodes) : t.data n.1 = some n.2 := by
  obtain ⟨T, free, hw, -⟩ := h.tree
  rw [hw.nodes_eq] at hn
  exact hw.tree.data_of_mem hn

theorem StandsAt.mem_slots (hc : StandsAt s c p e) (h : DbRel key s slots free) : e ∈ slots := by
  obtain ⟨e', he', heq⟩ := (h.trees _ hc.index).mem_nodes hc.node
  obtain rfl : e = e' := RamDbPtr.element.inj heq
  exact he'

/-- The record of a node. -/
theorem DbRel.recordAt_eq (h : DbRel key s slots free) (hi : i < s.mNbIndex_U32)
    {n : Nat × RamDbPtr R} (hn : n ∈ (s.mppRamDbTree i).nodes) :
    s.recordAt (i, n.1) = some (s.deref n.2) := by
  rw [recordAt, (h.trees i hi).data_eq hn]
  rfl

theorem withCursor_open (hopen : s.isOpen (some c) = true) (body : Nat → RamDbCursor → Option (Found R)) :
    s.withCursor (some c) true body = body c (s.mpCursorState_X c) := by
  simp only [withCursor, hopen, if_true]

/-- The record next to the one where the cursor stands, on either side. -/
theorem StandsAt.neighbour (hkt : ∀ i, ComparesBy (kt.compare i) (key i)) (h : DbRel key s slots free)
    (hc : StandsAt s c p e) (hside : d ≠ parentSubTree) :
    ReturnsNeighbour (Beyond kt d (s.mpCursorState_X c).Index_U32) s (s.mpElementList e)
      (s.getNeighbourElement (some c) true fun t q =>
        t.getNeighbour (s.comparePtr kt) d.opposite (wanted d) q) := by
  have hholds := h.trees _ hc.index
  obtain ⟨T, free', hw, hperm⟩ := hholds.tree
  have hnode := hc.node
  rw [hw.nodes_eq, ← mem_inorderFrom (m := isMirror d)] at hnode
  obtain ⟨l, l', hin⟩ := List.append_of_mem hnode
  have hsorted := pairwise_beyond hkt hside hw
  rw [hin] at hsorted
  have hget := hw.getNeighbour_eq (hholds.compares hkt) hside hin
  -- the stored records beyond are those of the nodes after this one
  have hright : ∀ z, s.Stores z → Beyond kt d (s.mpCursorState_X c).Index_U32 (s.mpElementList e) z →
      ∃ n ∈ l', s.deref n.2 = z := by
    intro z hz hbeyond
    obtain ⟨f, hf, rfl⟩ := h.stores_iff.mp hz
    obtain ⟨n, hn, hnf⟩ := hholds.exists_node hf
    rw [hw.nodes_eq, ← mem_inorderFrom (m := isMirror d), hin] at hn
    refine ⟨n, mem_right_of_rel hsorted (fun m n => Beyond.asymm hkt _ _) hn ?_, ?_⟩
    · rw [hnf]
      exact hbeyond
    · rw [hnf]
      rfl
  unfold ReturnsNeighbour getNeighbourElement
  rw [withCursor_open hc.isOpen, hc.pElement]
  have htree : s.treeAt (s.mpCursorState_X c).Index_U32 (s.mpCursorState_X c).Index_U32 =
      s.mppRamDbTree (s.mpCursorState_X c).Index_U32 := rfl
  simp only [htree, hget, Option.bind_eq_bind, Option.bind_some]
  cases l' with
  | nil =>
    refine Or.inr ⟨rfl, fun z hz hbeyond => ?_⟩
    obtain ⟨n, hn, -⟩ := hright z hz hbeyond
    exact absurd hn List.not_mem_nil
  | cons n l' =>
    have hn : n ∈ (s.mppRamDbTree (s.mpCursorState_X c).Index_U32).nodes := by
      rw [hw.nodes_eq, ← mem_inorderFrom (m := isMirror d), hin]
      simp
    rw [List.pairwise_append, List.pairwise_cons, List.pairwise_cons] at hsorted
    obtain ⟨-, ⟨hfirst, hrest, -⟩, -⟩ := hsorted
    refine Or.inl ⟨s.setCursorElement (some c) (some ((s.mpCursorState_X c).Index_U32, n.1)),
      s.deref n.2, ?_, ?_, hfirst n List.mem_cons_self, fun z hz hbeyond => ?_⟩
    · simp only [List.head?_cons, Option.map_some, placeCursor, h.recordAt_eq hc.index hn]
      rfl
    · obtain ⟨f, hf, hnf⟩ := hholds.mem_nodes hn
      rw [hnf]
      exact h.stores_iff.mpr ⟨f, hf, rfl⟩
    · obtain ⟨m, hm, rfl⟩ := hright z hz hbeyond
      rcases List.mem_cons.mp hm with rfl | hm
      · exact Or.inl rfl
      · exact Or.inr (hrest m hm)

/-- A cursor on a node of its tree stands on the record. -/
theorem StandsAt.follows (hkt : ∀ i, ComparesBy (kt.compare i) (key i)) (h : DbRel key s slots free)
    (hc : StandsAt s c p e) : FollowsRecord kt s c (s.mpElementList e) := by
  refine ⟨?_, hc.neighbour (d := leftSubTree) hkt h (by simp),
    hc.neighbour (d := rightSubTree) hkt h (by simp)⟩
  unfold getCurrentElement
  rw [withCursor_open hc.isOpen, hc.pElement]
  simp only [h.recordAt_eq hc.index hc.node]
  rfl

/-! ## Calls that insert, delete and update -/

theorem StandsAt.of_same (hc : StandsAt s c p e) (hs : SameCursors s s')
    (hnode : (p, .element e) ∈ (s'.mppRamDbTree (s.mpCursorState_X c).Index_U32).nodes) :
    StandsAt s' c p e := by
  have hcursor : s'.mpCursorState_X c = s.mpCursorState_X c := congrFun hs.cursors c
  refine ⟨(hs.isOpen_eq (some c)).trans hc.isOpen, ?_, ?_, ?_⟩
  · rw [hcursor, hs.nbIndex]
    exact hc.index
  · rw [hcursor]
    exact hc.pElement
  · rw [hcursor]
    exact hnode

theorem StandsAt.disturbs_eq (hc : StandsAt s c p e) (op : Op R) :
    s.disturbs kt c op = s.disturbsNode kt c ((s.mpCursorState_X c).Index_U32, p) op := by
  rw [disturbs, hc.pElement]
  rfl

theorem StandsAt.insertOutcome {cursor : Option Nat} {x : R} {err : BofErr} (hc : StandsAt s c p e)
    (h : DbRel key s slots free) (ho : InsertOutcome kt key s slots free cursor x s' err)
    (hd : s.disturbs kt c (.insertElement cursor (some x)) = false) :
    StandsAt s' c p e ∧ s'.mpElementList e = s.mpElementList e := by
  have he := hc.mem_slots h
  cases ho with
  | refused => exact ⟨hc, rfl⟩
  | undone f hf hopen h' hs hclash =>
    have hef : e ≠ f := fun heq => hf (heq ▸ he)
    rw [hc.disturbs_eq, disturbsNode, hopen, Bool.true_and] at hd
    refine ⟨hc.of_same hs.toSameCursors (hs.nodes _ hc.index _ hc.node hd ?_), ?_⟩
    · exact fun heq => hef (RamDbPtr.element.inj heq)
    · rw [hs.elements, Function.update_of_ne hef]
  | added f rest hfree h' hs =>
    have hnd := h.nodup
    rw [hfree, List.nodup_append', List.disjoint_cons_right] at hnd
    have hef : e ≠ f := fun heq => hnd.2.2.1 (heq ▸ he)
    refine ⟨hc.of_same hs.toSameCursors ((hs.trees _ hc.index).kept _ hc.node), ?_⟩
    rw [hs.elements, Function.update_of_ne hef]

/-- The record that is deleted is not the one where the cursor stands. -/
theorem StandsAt.drops {x : R} {q : Nat} (hc : StandsAt s c p e) (hs : Drops kt s x q s')
    (hfound : (s.foundNode kt x).isSome)
    (hd : s.deleteMoves kt x ((s.mpCursorState_X c).Index_U32, p) = false) (hne : e ≠ q) :
    StandsAt s' c p e := by
  rw [deleteMoves, hfound, Bool.true_and] at hd
  exact hc.of_same hs.toSameCursors ((hs.trees _ hc.index).kept _ hc.node hd fun heq =>
    hne (RamDbPtr.element.inj heq))

/-- A stored record that is equal to the one of an element is the one of this element. -/
theorem DbRel.eq_of_record (h : DbRel key s slots free) {f : Nat} (he : e ∈ slots) (hf : f ∈ slots)
    (heq : s.mpElementList f = s.mpElementList e) : f = e :=
  (h.trees 0 h.nbIndex).injective hf he (congrArg (key 0) heq)

theorem StandsAt.deleteOutcome {x : R} {err : BofErr} (hc : StandsAt s c p e)
    (h : DbRel key s slots free) (ho : DeleteOutcome kt key s slots free x s' err)
    (hd : s.disturbs kt c (.deleteElement (some x)) = false)
    (hstored : s'.Stores (s.mpElementList e)) :
    StandsAt s' c p e ∧ s'.mpElementList e = s.mpElementList e := by
  have he := hc.mem_slots h
  cases ho with
  | notFound => exact ⟨hc, rfl⟩
  | deleted q hq hfound hkey h' hs =>
    have heq : e ≠ q := by
      rintro rfl
      obtain ⟨f, hf, hfe⟩ := h'.stores_iff.mp hstored
      rw [hs.elements] at hfe
      have hnd := h.nodup
      rw [List.nodup_append'] at hnd
      rw [h.eq_of_record he (List.mem_of_mem_erase hf) hfe] at hf
      exact hnd.1.not_mem_erase hf
    rw [hc.disturbs_eq, disturbsNode] at hd
    exact ⟨hc.drops hs hfound hd heq, congrFun hs.elements e⟩

/-- The cursor is placed on a node of its tree. -/
theorem standsAt_setCursorElement (h : s.isOpen (some c) = true)
    (hindex : (s.mpCursorState_X c).Index_U32 < s.mNbIndex_U32)
    (hnode : (p, .element e) ∈ (s.mppRamDbTree (s.mpCursorState_X c).Index_U32).nodes) :
    StandsAt (s.setCursorElement (some c) (some ((s.mpCursorState_X c).Index_U32, p))) c p e := by
  have hcursor : (s.setCursorElement (some c)
      (some ((s.mpCursorState_X c).Index_U32, p))).mpCursorState_X c =
      { s.mpCursorState_X c with pElement := some ((s.mpCursorState_X c).Index_U32, p) } :=
    Function.update_self _ _ _
  refine ⟨?_, ?_, ?_, ?_⟩
  · simp only [isOpen, hcursor]
    exact h
  · rw [hcursor]
    exact hindex
  · rw [hcursor]
  · rw [hcursor]
    exact hnode

/-- Another cursor is placed, or this one where it stands. -/
theorem StandsAt.setCursorElement {cursor : Option Nat} {n : Nat × Nat} (hc : StandsAt s c p e)
    (hn : cursor = some c → n = ((s.mpCursorState_X c).Index_U32, p)) :
    StandsAt (s.setCursorElement cursor (some n)) c p e := by
  cases cursor with
  | none => exact hc
  | some c' =>
    by_cases hcc : c' = c
    · subst hcc
      rw [hn rfl]
      exact standsAt_setCursorElement hc.isOpen hc.index hc.node
    · have hcursor : (s.setCursorElement (some c') (some n)).mpCursorState_X c = s.mpCursorState_X c :=
        Function.update_of_ne (Ne.symm hcc) _ _
      refine ⟨?_, ?_, ?_, ?_⟩
      · simp only [RamDb.isOpen, hcursor]
        exact hc.isOpen
      · rw [hcursor]
        exact hc.index
      · rw [hcursor]
        exact hc.pElement
      · rw [hcursor]
        exact hc.node

theorem StandsAt.updateOutcome {cursor : Option Nat} {search new : R} (hc : StandsAt s c p e) (h : DbRel key s slots free)
    (ho : UpdateOutcome kt key s slots free cursor search new s')
    (hd : s.disturbs kt c (.updateElement cursor (some search) (some new)) = false)
    (hstored : s'.Stores (s.mpElementList e)) :
    StandsAt s' c p e ∧ s'.mpElementList e = s.mpElementList e := by
  have he := hc.mem_slots h
  rw [hc.disturbs_eq, disturbsNode] at hd
  cases ho with
  | unchanged => exact ⟨hc, rfl⟩
  | written q m hcall hq hfound hsame h' =>
    rw [hcall.1, hcall.2, hsame, if_pos rfl, hfound] at hd
    have hc' : StandsAt (s.setElement q new) c p e := hc.of_same ⟨rfl, rfl⟩ hc.node
    refine ⟨hc'.setCursorElement fun hcursor => ?_, ?_⟩
    · rw [hcursor] at hd
      have hn : (s.mNbIndex_U32 - 1, m) = ((s.mpCursorState_X c).Index_U32, p) := by
        simpa using hd
      exact hn
    · -- if it is the record itself that is written over, the new one is equal to it
      obtain ⟨f, hf, hfe⟩ := (h'.setCursorElement cursor _).stores_iff.mp hstored
      have hlist : ((s.setElement q new).setCursorElement cursor
          (some (s.mNbIndex_U32 - 1, m))).mpElementList = Function.update s.mpElementList q new := by
        cases cursor <;> rfl
      rw [hlist] at hfe ⊢
      by_cases hfq : f = q
      · subst hfq
        rw [Function.update_self] at hfe
        by_cases hef : e = f
        · rw [hef, Function.update_self, hfe, hef]
        · rw [Function.update_of_ne hef]
      · rw [Function.update_of_ne hfq] at hfe
        obtain rfl : f = e := h.eq_of_record he hf hfe
        rw [Function.update_of_ne hfq]
  | replaced q x hcall hq hfound hsame hx hs hs₁ h' =>
    rw [hcall.1, hcall.2, hsame] at hd
    have hmoves : s.deleteMoves kt search ((s.mpCursorState_X c).Index_U32, p) = false := hd
    by_cases heq : e = q
    · -- the record itself has been deleted, and it is stored, so it has been inserted again
      subst heq
      have hmoves' := hmoves
      rw [deleteMoves, hfound, Bool.true_and] at hmoves'
      have hfreed := (hs.trees _ hc.index).freed _ hc.node hmoves' rfl
      have hnode := (hs₁.trees _ (hs.nbIndex ▸ hc.index)).new p hfreed
      refine ⟨hc.of_same ⟨hs₁.cursors.trans hs.cursors, hs₁.nbIndex.trans hs.nbIndex⟩ hnode, ?_⟩
      obtain ⟨f, hf, hfe⟩ := h'.stores_iff.mp hstored
      rw [hs₁.elements, hs.elements] at hfe ⊢
      by_cases hef : f = e
      · rw [← hfe, hef]
      · rw [Function.update_of_ne hef] at hfe
        have hf' : f ∈ slots := List.mem_of_mem_erase ((List.mem_cons.mp hf).resolve_left hef)
        exact absurd (h.eq_of_record he hf' hfe) hef
    · have hc₁ := hc.drops hs hfound hmoves heq
      refine ⟨hc₁.of_same hs₁.toSameCursors ((hs₁.trees _ hc₁.index).kept _ hc₁.node), ?_⟩
      rw [hs₁.elements, Function.update_of_ne heq, hs.elements]

/-- A call that inserts, deletes or updates leaves the cursor on its record. -/
theorem StandsAt.step (hkt : ∀ i, ComparesBy (kt.compare i) (key i)) (h : DbRel key s slots free)
    (hc : StandsAt s c p e) {op : Op R} (hchange : op.IsChange) (hop : HitsOneRecord kt s op)
    (hd : s.disturbs kt c op = false) (hstored : (step kt s op).1.Stores (s.mpElementList e)) :
    StandsAt (step kt s op).1 c p e ∧ (step kt s op).1.mpElementList e = s.mpElementList e := by
  have hsame : ∀ {s' err}, (s.returning (some (s', err))).1 = s' := rfl
  match op with
  | .getCursor index pCursor => exact hchange.elim
  | .freeCursor pCursor => exact hchange.elim
  | .clearDbAndReleaseCursor => exact hchange.elim
  | .insertElement cursor none =>
    simp only [RamDb.step, insertElement_none, hsame]
    exact ⟨hc, trivial⟩
  | .insertElement cursor (some x) =>
    obtain ⟨s', err, heq, ho⟩ := h.insertElement hkt cursor x
    simp only [RamDb.step, heq, hsame]
    exact hc.insertOutcome h ho hd
  | .deleteElement none => exact ⟨hc, rfl⟩
  | .deleteElement (some x) =>
    obtain ⟨s', err, heq, ho⟩ := h.deleteElement hkt hop
    simp only [RamDb.step, heq, hsame] at hstored ⊢
    exact hc.deleteOutcome h ho hd hstored
  | .updateElement cursor none pNew =>
    simp only [RamDb.step, updateElement_of_none cursor none (Or.inl rfl), hsame]
    exact ⟨hc, trivial⟩
  | .updateElement cursor (some search) none =>
    simp only [RamDb.step, updateElement_of_none cursor (some search) (Or.inr rfl), hsame]
    exact ⟨hc, trivial⟩
  | .updateElement cursor (some search) (some new) =>
    obtain ⟨s', err, heq, ho⟩ := h.updateElement hkt cursor hop
    simp only [RamDb.step, heq, hsame] at hstored ⊢
    exact hc.updateOutcome h ho hd hstored

/-! ## Calls that place a cursor -/

/-- A call has placed the cursor on a node that is as `ok` says, or has found nothing. -/
inductive Places (s : RamDb R) (cursor : Option Nat) (ok : Nat → Nat × Nat → Prop) :
    RamDb R → Option R → Prop
  | nothing : Places s cursor ok s none
  | place (c : Nat) (n : Nat × Nat) (x : R) (hcursor : cursor = some c) (hopen : s.isOpen (some c) = true)
    (hok : ok c n) (hx : s.recordAt n = some x) :
    Places s cursor ok (s.setCursorElement (some c) (some n)) (some x)

/-- The end of a call that has found the node `found`. -/
theorem places_placeCursor {ok : Nat → Nat × Nat → Prop} {cursor : Option Nat} {err err' : BofErr}
    {found : Option (Nat × Nat)} {x : Option R} (hcursor : cursor = some c)
    (hopen : s.isOpen (some c) = true) (hok : ∀ n, found = some n → ok c n)
    (heq : s.placeCursor c err found = some (s', err', x)) : Places s cursor ok s' x := by
  unfold placeCursor at heq
  cases found with
  | none =>
    simp only [Option.some.injEq, Prod.mk.injEq] at heq
    obtain ⟨rfl, -, rfl⟩ := heq
    exact .nothing
  | some n =>
    cases hx : s.recordAt n with
    | none =>
      simp only [hx] at heq
      exact absurd heq (by simp)
    | some y =>
      simp only [hx, Option.bind_eq_bind, Option.bind_some, Option.pure_def, Option.some.injEq,
        Prod.mk.injEq] at heq
      obtain ⟨rfl, -, rfl⟩ := heq
      exact .place c n y hcursor hopen (hok n rfl) hx

/-- The checks of a call fail, or its body is run for an open cursor. -/
theorem withCursor_cases {cursor : Option Nat} {pElement : Bool}
    {body : Nat → RamDbCursor → Option (Found R)} {err : BofErr} {x : Option R}
    (heq : s.withCursor cursor pElement body = some (s', err, x)) :
    (s' = s ∧ x = none) ∨ ∃ c, cursor = some c ∧ s.isOpen (some c) = true ∧
      body c (s.mpCursorState_X c) = some (s', err, x) := by
  have hnothing : ∀ {err'}, some (s, err', (none : Option R)) = some (s', err, x) →
      s' = s ∧ x = none := by
    intro err' h
    simp only [Option.some.injEq, Prod.mk.injEq] at h
    exact ⟨h.1.symm, h.2.2.symm⟩
  unfold withCursor at heq
  cases cursor with
  | none => exact Or.inl (hnothing heq)
  | some c =>
    by_cases hopen : s.isOpen (some c) = true
    · simp only [hopen, if_true] at heq
      cases pElement with
      | false => exact Or.inl (hnothing heq)
      | true => exact Or.inr ⟨c, rfl, hopen, heq⟩
    · simp only [hopen] at heq
      exact Or.inl (hnothing heq)

theorem places_outermost {cursor : Option Nat} {pElement : Bool}
    {get : AvlTree (RamDbPtr R) → Option (Option Nat)} {err : BofErr} {x : Option R}
    (heq : s.getOutermostElement cursor pElement get = some (s', err, x)) :
    Places s cursor (fun c n => n.1 = (s.mpCursorState_X c).Index_U32 ∧
      get (s.mppRamDbTree n.1) = some (some n.2)) s' x := by
  rcases withCursor_cases heq with ⟨rfl, rfl⟩ | ⟨c, hcursor, hopen, hbody⟩
  · exact .nothing
  cases hget : get (s.mppRamDbTree (s.mpCursorState_X c).Index_U32) with
  | none =>
    rw [hget] at hbody
    exact absurd hbody (by simp)
  | some p =>
    rw [hget] at hbody
    refine places_placeCursor hcursor hopen (fun n hn => ?_) hbody
    obtain ⟨q, rfl, rfl⟩ := Option.map_eq_some_iff.mp hn
    exact ⟨rfl, hget⟩

theorem places_neighbour {cursor : Option Nat} {pElement : Bool}
    {get : AvlTree (RamDbPtr R) → Option Nat → Option (Option Nat)} {err : BofErr} {x : Option R}
    (heq : s.getNeighbourElement cursor pElement get = some (s', err, x)) :
    Places s cursor (fun c n => ∃ p, (s.mpCursorState_X c).pElement = some (n.1, p) ∧
      get (s.treeAt (s.mpCursorState_X c).Index_U32 n.1) (some p) = some (some n.2)) s' x := by
  rcases withCursor_cases heq with ⟨rfl, rfl⟩ | ⟨c, hcursor, hopen, hbody⟩
  · exact .nothing
  cases hp : (s.mpCursorState_X c).pElement with
  | none =>
    rw [hp] at hbody
    exact places_placeCursor hcursor hopen (fun n hn => absurd hn (by simp)) hbody
  | some n =>
    obtain ⟨k, p⟩ := n
    simp only [hp] at hbody
    cases hget : get (s.treeAt (s.mpCursorState_X c).Index_U32 k) (some p) with
    | none =>
      rw [hget] at hbody
      exact absurd hbody (by simp)
    | some q =>
      rw [hget] at hbody
      refine places_placeCursor hcursor hopen (fun n hn => ?_) hbody
      obtain ⟨q, rfl, rfl⟩ := Option.map_eq_some_iff.mp hn
      exact ⟨p, hp, hget⟩

theorem places_search {cursor : Option Nat} {pSearchElement : Option R} {pFoundElement : Bool}
    {cmp : BofCmp} {err : BofErr} {x : Option R}
    (heq : s.searchElement kt cursor pSearchElement pFoundElement cmp = some (s', err, x)) :
    Places s cursor (fun c n => n.1 = (s.mpCursorState_X c).Index_U32 ∧ ∃ y,
      (s.mppRamDbTree n.1).search (s.comparePtr kt) (.argument y) cmp = some (some n.2)) s' x := by
  rcases withCursor_cases heq with ⟨rfl, rfl⟩ | ⟨c, hcursor, hopen, hbody⟩
  · exact .nothing
  cases pSearchElement with
  | none => exact absurd hbody (by simp)
  | some y =>
    simp only [Option.bind_eq_bind, Option.bind_some] at hbody
    cases hsearch : (s.mppRamDbTree (s.mpCursorState_X c).Index_U32).search (s.comparePtr kt)
        (.argument y) cmp with
    | none =>
      rw [hsearch] at hbody
      exact absurd hbody (by simp)
    | some p =>
      rw [hsearch] at hbody
      refine places_placeCursor hcursor hopen (fun n hn => ?_) hbody
      obtain ⟨q, rfl, rfl⟩ := Option.map_eq_some_iff.mp hn
      exact ⟨rfl, y, hsearch⟩

theorem getCurrentElement_state {cursor : Option Nat} {pElement : Bool} {err : BofErr} {x : Option R}
    (heq : s.getCurrentElement cursor pElement = some (s', err, x)) : s' = s := by
  rcases withCursor_cases heq with ⟨rfl, -⟩ | ⟨c, -, -, hbody⟩
  · rfl
  cases hp : (s.mpCursorState_X c).pElement with
  | none =>
    rw [hp] at hbody
    exact (Prod.mk.inj (Option.some.inj hbody)).1.symm
  | some n =>
    rw [hp] at hbody
    obtain ⟨y, -, hy⟩ := Option.map_eq_some_iff.mp hbody
    exact (Prod.mk.inj hy).1.symm

/-- A call through a cursor changes at most where the cursor is. -/
theorem read_state {op : CursorOp R} {err : BofErr} {x : Option R}
    (heq : s.read kt op = some (s', err, x)) :
    s' = s ∨ ∃ c n, s' = s.setCursorElement (some c) (some n) := by
  have hplaces : ∀ {cursor ok}, Places s cursor ok s' x →
      s' = s ∨ ∃ c n, s' = s.setCursorElement (some c) (some n) := by
    intro cursor ok h
    cases h with
    | nothing => exact Or.inl rfl
    | place c n y => exact Or.inr ⟨c, n, rfl⟩
  cases op with
  | getFirstElement cursor pElement => exact hplaces (places_outermost heq)
  | getLastElement cursor pElement => exact hplaces (places_outermost heq)
  | getCurrentElement cursor pElement => exact Or.inl (getCurrentElement_state heq)
  | getNextElement cursor pElement => exact hplaces (places_neighbour heq)
  | getPreviousElement cursor pElement => exact hplaces (places_neighbour heq)
  | searchElement cursor pSearchElement pFoundElement cmp => exact hplaces (places_search heq)

theorem Holds.getOutermost_mem {t : AvlTree (RamDbPtr R)} (h : Holds key s i t slots) {q : Nat}
    (hside : d ≠ parentSubTree) (heq : t.getOutermost d = some (some q)) :
    q ∈ t.nodes.map Prod.fst := by
  obtain ⟨T, free, hw, -⟩ := h.tree
  rw [hw.getOutermost_eq hside] at heq
  obtain ⟨n, hn, rfl⟩ := Option.map_eq_some_iff.mp (Option.some.inj heq)
  rw [hw.nodes_eq]
  exact List.mem_map_of_mem (mem_inorderFrom.mp (List.mem_of_mem_head? hn))

theorem Holds.getNeighbour_mem {t : AvlTree (RamDbPtr R)} (h : Holds key s i t slots)
    (hkt : ∀ i, ComparesBy (kt.compare i) (key i)) {q : Nat} (hside : d ≠ parentSubTree)
    (hp : p ∈ t.nodes.map Prod.fst)
    (heq : t.getNeighbour (s.comparePtr kt) d.opposite (wanted d) (some p) = some (some q)) :
    q ∈ t.nodes.map Prod.fst := by
  obtain ⟨T, free, hw, -⟩ := h.tree
  rw [hw.nodes_eq] at hp ⊢
  obtain ⟨m, hm, rfl⟩ := List.mem_map.mp hp
  obtain ⟨l, l', hin⟩ := List.append_of_mem ((mem_inorderFrom (m := isMirror d)).mpr hm)
  rw [hw.getNeighbour_eq (h.compares hkt) hside hin] at heq
  obtain ⟨n, hn, rfl⟩ := Option.map_eq_some_iff.mp (Option.some.inj heq)
  have hmem : n ∈ T.inorderFrom (isMirror d) := by
    rw [hin]
    exact List.mem_append_right _ (List.mem_cons_of_mem _ (List.mem_of_mem_head? hn))
  exact List.mem_map_of_mem (mem_inorderFrom.mp hmem)

theorem Holds.search_mem {t : AvlTree (RamDbPtr R)} (h : Holds key s i t slots) {q : Nat}
    {x : RamDbPtr R} {cmp : BofCmp} (heq : t.search (s.comparePtr kt) x cmp = some (some q)) :
    q ∈ t.nodes.map Prod.fst := by
  obtain ⟨T, free, hw, -⟩ := h.tree
  rw [hw.nodes_eq]
  exact hw.search_mem heq

/-- The open cursors belong to an index. -/
def CursorsIn (s : RamDb R) : Prop :=
  ∀ c, s.isOpen (some c) = true → (s.mpCursorState_X c).Index_U32 < s.mNbIndex_U32

/-- The cursor has been placed on a node of its tree. -/
theorem Places.standsAt {ok : Nat → Nat × Nat → Prop} (h : DbRel key s slots free)
    (hcursors : CursorsIn s) (hp : Places s (some c) ok s' (some r))
    (hok : ∀ n, (s.mpCursorState_X c).Index_U32 < s.mNbIndex_U32 → ok c n →
      n.1 = (s.mpCursorState_X c).Index_U32 ∧ n.2 ∈ (s.mppRamDbTree n.1).nodes.map Prod.fst) :
    ∃ p e, StandsAt s' c p e ∧ s'.mpElementList e = r := by
  cases hp with
  | place c' n x hcursor hopen hokn hx =>
    obtain rfl : c = c' := Option.some.inj hcursor
    have hindex := hcursors c hopen
    obtain ⟨hn, hmem⟩ := hok n hindex hokn
    obtain ⟨i, p⟩ := n
    obtain rfl : i = (s.mpCursorState_X c).Index_U32 := hn
    obtain ⟨m, hm, hmp⟩ := List.mem_map.mp hmem
    obtain rfl : m.1 = p := hmp
    obtain ⟨e, -, hme⟩ := (h.trees _ hindex).mem_nodes hm
    have hnode : (m.1, .element e) ∈ (s.mppRamDbTree (s.mpCursorState_X c).Index_U32).nodes := by
      rw [← hme]
      exact hm
    rw [h.recordAt_eq hindex hnode] at hx
    exact ⟨m.1, e, standsAt_setCursorElement hopen hindex hnode, Option.some.inj hx⟩

/-- A call that has placed a cursor on a record has placed it on a node of its tree. -/
theorem standsAt_placed (hkt : ∀ i, ComparesBy (kt.compare i) (key i)) (h : DbRel key s slots free)
    (hcursors : CursorsIn s) {op : CursorOp R} (hstart : s.StartsInTree op)
    (hplaced : op.placed = some c) {err : BofErr} (heq : s.read kt op = some (s', err, some r)) :
    ∃ p e, StandsAt s' c p e ∧ s'.mpElementList e = r := by
  have houtermost : ∀ {d : WhichAvlSubTree} {pElement}, d ≠ parentSubTree →
      s.getOutermostElement (some c) pElement (·.getOutermost d) = some (s', err, some r) →
      ∃ p e, StandsAt s' c p e ∧ s'.mpElementList e = r := by
    intro d pElement hside heq
    refine (places_outermost heq).standsAt h hcursors fun n hindex hn => ⟨hn.1, ?_⟩
    exact (h.trees n.1 (hn.1 ▸ hindex)).getOutermost_mem hside hn.2
  have hneighbour : ∀ {d : WhichAvlSubTree} {pElement}, d ≠ parentSubTree →
      (∀ n, (s.mpCursorState_X c).pElement = some n → n.1 = (s.mpCursorState_X c).Index_U32 ∧
        n.2 ∈ (s.mppRamDbTree n.1).nodes.map Prod.fst) →
      s.getNeighbourElement (some c) pElement (fun t q =>
        t.getNeighbour (s.comparePtr kt) d.opposite (wanted d) q) = some (s', err, some r) →
      ∃ p e, StandsAt s' c p e ∧ s'.mpElementList e = r := by
    intro d pElement hside hstart heq
    refine (places_neighbour heq).standsAt h hcursors fun n hindex hn => ?_
    obtain ⟨p, hp, hget⟩ := hn
    obtain ⟨hn, hmem⟩ := hstart _ hp
    rw [← hn] at hget hindex
    exact ⟨hn, (h.trees n.1 hindex).getNeighbour_mem hkt hside hmem hget⟩
  cases op with
  | getFirstElement cursor pElement =>
    obtain rfl : cursor = some c := hplaced
    exact houtermost (d := leftSubTree) (by simp) heq
  | getLastElement cursor pElement =>
    obtain rfl : cursor = some c := hplaced
    exact houtermost (d := rightSubTree) (by simp) heq
  | getCurrentElement cursor pElement => exact absurd hplaced (by simp [CursorOp.placed])
  | getNextElement cursor pElement =>
    obtain rfl : cursor = some c := hplaced
    exact hneighbour (d := leftSubTree) (by simp) hstart heq
  | getPreviousElement cursor pElement =>
    obtain rfl : cursor = some c := hplaced
    exact hneighbour (d := rightSubTree) (by simp) hstart heq
  | searchElement cursor pSearchElement pFoundElement cmp =>
    obtain rfl : cursor = some c := hplaced
    refine (places_search heq).standsAt h hcursors fun n hindex hn => ⟨hn.1, ?_⟩
    obtain ⟨y, hsearch⟩ := hn.2
    exact (h.trees n.1 (hn.1 ▸ hindex)).search_mem hsearch

/-! ## Runs -/

/-- What holds in every state of a run whose calls hit one record each. -/
structure Reached (key : ∀ i, R → K i) (s : RamDb R) : Prop where
  rel : ∃ slots free, DbRel key s slots free
  cursors : CursorsIn s

theorem CursorsIn.of_same (h : CursorsIn s) (hs : SameCursors s s') : CursorsIn s' := by
  intro c hc
  rw [hs.isOpen_eq] at hc
  rw [hs.cursors, hs.nbIndex]
  exact h c hc

/-- One cursor changes. -/
theorem CursorsIn.update (h : CursorsIn s) {cur : RamDbCursor} {n : Nat}
    (hcur : cur.MagicNumber_U32 = cursorMagicNumber → cur.Index_U32 < s.mNbIndex_U32) :
    CursorsIn { s with
      mpCursorState_X := Function.update s.mpCursorState_X c cur
      mNbFreeCursor_U32 := n } := by
  intro c' hopen
  show (Function.update s.mpCursorState_X c cur c').Index_U32 < s.mNbIndex_U32
  by_cases hcc : c' = c
  · subst hcc
    rw [Function.update_self]
    simp only [isOpen, Function.update_self, decide_eq_true_eq] at hopen
    exact hcur hopen.2
  · rw [Function.update_of_ne hcc]
    simp only [isOpen, Function.update_of_ne hcc] at hopen
    exact h c' hopen

theorem CursorsIn.setCursorElement (h : CursorsIn s) (cursor : Option Nat)
    (pElement : Option (Nat × Nat)) : CursorsIn (s.setCursorElement cursor pElement) := by
  cases cursor with
  | none => exact h
  | some c' =>
    intro c hc
    have hcursor : ((s.setCursorElement (some c') pElement).mpCursorState_X c).Index_U32 =
        (s.mpCursorState_X c).Index_U32 ∧
        ((s.setCursorElement (some c') pElement).mpCursorState_X c).MagicNumber_U32 =
        (s.mpCursorState_X c).MagicNumber_U32 := by
      by_cases hcc : c = c'
      · subst hcc
        simp [RamDb.setCursorElement]
      · simp [RamDb.setCursorElement, hcc]
    simp only [isOpen, hcursor.2] at hc
    rw [hcursor.1]
    exact h c hc

/-- One call that changes the data base. -/
theorem CursorsIn.step (hkt : ∀ i, ComparesBy (kt.compare i) (key i)) (h : DbRel key s slots free)
    (hc : CursorsIn s) (op : Op R) (hop : HitsOneRecord kt s op) : CursorsIn (step kt s op).1 := by
  have hsame : ∀ {s' err}, (s.returning (some (s', err))).1 = s' := rfl
  match op with
  | .getCursor index pCursor =>
    show CursorsIn (s.getCursor index pCursor).1
    unfold getCursor
    split_ifs with hindex
    · split
      · exact hc.update fun _ => hindex
      · exact hc
    all_goals exact hc
  | .freeCursor pCursor =>
    show CursorsIn (s.freeCursor pCursor).1
    unfold freeCursor
    split
    · split_ifs
      · refine hc.update fun hmagic => ?_
        exact absurd hmagic (by decide)
      · exact hc
    · exact hc
  | .insertElement cursor none =>
    simp only [RamDb.step, insertElement_none, hsame]
    exact hc
  | .insertElement cursor (some x) =>
    obtain ⟨s', err, heq, ho⟩ := h.insertElement hkt cursor x
    simp only [RamDb.step, heq, hsame]
    cases ho with
    | refused => exact hc
    | undone f hf hopen h' hs hclash => exact hc.of_same hs.toSameCursors
    | added f rest hfree h' hs => exact hc.of_same hs.toSameCursors
  | .deleteElement none => exact hc
  | .deleteElement (some x) =>
    obtain ⟨s', err, heq, ho⟩ := h.deleteElement hkt hop
    simp only [RamDb.step, heq, hsame]
    cases ho with
    | notFound => exact hc
    | deleted p hp hfound hkey h' hs => exact hc.of_same hs.toSameCursors
  | .updateElement cursor none pNew =>
    simp only [RamDb.step, updateElement_of_none cursor none (Or.inl rfl), hsame]
    exact hc
  | .updateElement cursor (some search) none =>
    simp only [RamDb.step, updateElement_of_none cursor (some search) (Or.inr rfl), hsame]
    exact hc
  | .updateElement cursor (some search) (some new) =>
    obtain ⟨s', err, heq, ho⟩ := h.updateElement hkt cursor hop
    simp only [RamDb.step, heq, hsame]
    cases ho with
    | unchanged => exact hc
    | written p m hcall hp hfound hsame h' =>
      have hset : CursorsIn (s.setElement p new) := hc.of_same ⟨rfl, rfl⟩
      exact hset.setCursorElement cursor _
    | replaced p x hcall hp hfound hsame hx hs hs₁ h' =>
      exact (hc.of_same hs.toSameCursors).of_same hs₁.toSameCursors
  | .clearDbAndReleaseCursor =>
    intro c hopen
    have hmagic : 0 = cursorMagicNumber := (of_decide_eq_true hopen).2
    exact absurd hmagic (by decide)

theorem call_read_some {op : CursorOp R} {err : BofErr} {x : Option R}
    (heq : s.read kt op = some (s', err, x)) :
    RamDb.call kt s (.read op) = (s', some (err, none, x)) := by
  simp only [RamDb.call, heq]

theorem call_read_none {op : CursorOp R} (heq : s.read kt op = none) :
    RamDb.call kt s (.read op) = (s, none) := by
  simp only [RamDb.call, heq]

theorem Reached.call (hkt : ∀ i, ComparesBy (kt.compare i) (key i)) (h : Reached key s) (op : Call R)
    (hop : CallHitsOneRecord kt s op) : Reached key (call kt s op).1 := by
  obtain ⟨slots, free, hrel⟩ := h.rel
  cases op with
  | change op => exact ⟨(hrel.step hkt op hop).1, h.cursors.step hkt hrel op hop⟩
  | read op =>
    cases heq : s.read kt op with
    | none =>
      rw [call_read_none heq]
      exact h
    | some res =>
      obtain ⟨s', err, x⟩ := res
      rw [call_read_some heq]
      rcases read_state heq with rfl | ⟨c, n, rfl⟩
      · exact h
      · exact ⟨⟨slots, free, hrel.setCursorElement (some c) (some n)⟩,
          h.cursors.setCursorElement (some c) (some n)⟩

/-- The cursors of `BofRamDb` follow their records on every run where they are not disturbed. -/
theorem ramDb_cursorFollows (kt : RamDbKeyType R) (key : ∀ i, R → K i) (nbMaxElement nbIndex : Nat)
    (pElement : Nat → R) (hkt : ∀ i, ComparesBy (kt.compare i) (key i)) (hpos : 0 < nbMaxElement)
    (hlt : nbMaxElement < 4294967296) (hindex : 0 < nbIndex) (ops₁ : List (Call R))
    (place : CursorOp R) (ops₂ : List (Op R))
    (hc : Undisturbed kt nbMaxElement nbIndex pElement ops₁ place ops₂) :
    CursorFollows kt nbMaxElement nbIndex pElement ops₁ place ops₂ := by
  have hcreate : Reached key (create nbMaxElement nbIndex pElement) :=
    ⟨⟨_, _, dbRel_create hpos hlt hindex pElement⟩, fun c hopen => absurd hopen (by
      simp [isOpen, create, cursorMagicNumber])⟩
  have hreached := inv_run (P := Reached key) (fun s op h hop => h.call hkt op hop) hcreate hc.before
  unfold CursorFollows
  intro s₁ s₂ c r hplaced hret hchange hstored
  obtain ⟨slots, free, hrel⟩ := hreached.rel
  -- the cursor is placed on a node of its tree
  obtain ⟨s', heq⟩ : ∃ s', s₁.read kt place = some (s', .noError, some r) := by
    cases hread : s₁.read kt place with
    | none =>
      rw [call_read_none hread] at hret
      exact absurd hret (by simp)
    | some res =>
      obtain ⟨s', err, x⟩ := res
      rw [call_read_some hread] at hret
      simp only [Option.some.injEq, Prod.mk.injEq, true_and] at hret
      obtain ⟨rfl, rfl⟩ := hret
      exact ⟨s', rfl⟩
  have hs₂ : s₂ = s' := congrArg Prod.fst (call_read_some heq)
  obtain ⟨p, e, hstands, hr⟩ := standsAt_placed hkt hrel hreached.cursors hc.starts hplaced heq
  have hrel' : ∃ slots free, DbRel key s' slots free := by
    rcases read_state heq with rfl | ⟨c', n, rfl⟩
    · exact ⟨slots, free, hrel⟩
    · exact ⟨slots, free, hrel.setCursorElement _ _⟩
  have hafter := hc.after c hplaced
  -- and stays there
  have hrun : (∃ slots free, DbRel key (run (step kt) s₂ ops₂).1 slots free) ∧
      StandsAt (run (step kt) s₂ ops₂).1 c p e ∧ (run (step kt) s₂ ops₂).1.mpElementList e = r := by
    refine inv_run (P := fun s => (∃ slots free, DbRel key s slots free) ∧ StandsAt s c p e ∧
      s.mpElementList e = r) (fun s op h hop => ?_) (hs₂ ▸ ⟨hrel', hstands, hr⟩)
      (meets_inter (meets_and hafter hchange) hstored)
    obtain ⟨⟨slots, free, hrel⟩, hstands, hr⟩ := h
    obtain ⟨⟨⟨hone, hd⟩, hchange⟩, hstored⟩ := hop
    rw [← hr] at hstored
    obtain ⟨hstands', hsame⟩ := hstands.step hkt hrel hchange hone hd hstored
    exact ⟨(hrel.step hkt op hone).1, hstands', hsame.trans hr⟩
  obtain ⟨⟨slots', free', hrel''⟩, hstands', hr'⟩ := hrun
  rw [← hr']
  exact hstands'.follows hkt hrel''

/-- Two indexes: the record of the cursor stays while other ones are deleted, refused because of a
duplicate key and inserted. -/
theorem cursorFollows_two_indexes :
    CursorFollows twoKeys 4 2 (fun _ => (0, 0))
      [.change (.getCursor 0 true), .change (.getCursor 1 true),
        .change (.insertElement (some 0) (some (2, 7))), .change (.insertElement (some 0) (some (1, 9))),
        .change (.insertElement (some 0) (some (3, 11)))]
      (.getFirstElement (some 1) true)
      [.deleteElement (some (3, 11)), .insertElement (some 0) (some (5, 7)),
        .insertElement (some 0) (some (4, 10)), .updateElement (some 0) (some (1, 9)) (some (6, 6))] :=
  ramDb_cursorFollows twoKeys (fun i z => if i = 0 then z.1 else z.2) 4 2 (fun _ => (0, 0))
    (fun _ _ _ => rfl) (by decide) (by decide) (by decide) _ _ _
    ⟨by decide +kernel, trivial, fun c hc => by
      obtain rfl : 1 = c := Option.some.inj hc
      decide +kernel⟩

/-- A cursor stands on the last one of three records. Deleting the first one inserted puts the record of
the cursor into another node, and the next record inserted gets the node of the cursor. -/
theorem not_cursorFollows_of_delete :
    ¬ CursorFollows twoKeys 3 1 (fun _ => (0, 0))
      [.change (.getCursor 0 true), .change (.insertElement (some 0) (some (2, 2))),
        .change (.insertElement (some 0) (some (1, 1))), .change (.insertElement (some 0) (some (3, 3)))]
      (.getLastElement (some 0) true)
      [.deleteElement (some (2, 2)), .insertElement (some 0) (some (5, 5))] := by
  intro h
  have hfollows := h 0 (3, 3) rfl (by decide +kernel) (by simp [Op.IsChange]) (by decide +kernel)
  have hcurrent := congrArg (Option.map fun res => res.2.2) hfollows.current
  exact absurd hcurrent (by decide +kernel)

end BofStd.RamDb
