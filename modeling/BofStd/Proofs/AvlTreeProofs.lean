import BofStd.Proofs.AvlDeleteProofs
import Mathlib.Data.List.Pairwise

/-!
# `BofAvlTree`: the calls and whole runs

Every call keeps `WellFormed`, and what it does to the records is what the map does. The lemmas about
single calls come in one version for each answer; the run theorem is the simulation of the map.
-/

namespace BofStd.AvlTree

open WhichAvlSubTree BinaryTree Linked Machine

variable {ρ K : Type} [LinearOrder K] {compare : Nat → ρ → ρ → BofCmp} {key : ρ → K}
  {t t' : AvlTree ρ} {T T' : BinaryTree (Nat × ρ)} {free : List Nat} {x : ρ} {f : Nat}

/-! ## The invariant -/

theorem WellFormed.nodup (h : WellFormed key t T free) : (ids T ++ free).Nodup :=
  h.pool.nodup_iff.mpr List.nodup_range

theorem WellFormed.length (h : WellFormed key t T free) :
    (ids T).length + free.length = t.mNbMaxElement_U32 := by
  have hlen := h.pool.length_eq
  rw [List.length_append, List.length_range] at hlen
  exact hlen

/-- The recursion is never deeper than the pool is large. -/
theorem WellFormed.height_lt (h : WellFormed key t T free) : T.height < t.fuel := by
  have hlen := h.length
  have hle := T.height_le_numNodes
  rw [← length_inorder, ← List.length_map (f := Prod.fst)] at hle
  unfold fuel
  unfold ids at hlen
  omega

theorem mem_records {y : ρ} : y ∈ records T ↔ ∃ n ∈ T.inorder, n.2 = y := List.mem_map

/-- Only the keys of the records in the tree matter. -/
theorem WellFormed.congr_key {key' : ρ → K} (h : WellFormed key t T free)
    (hkey : ∀ x ∈ records T, key' x = key x) : WellFormed key' t T free := by
  refine ⟨h.tree, ?_, h.balanced, h.chain, h.pool, h.count⟩
  refine List.Pairwise.imp_of_mem (fun hx hy hlt => ?_) h.ascending
  rw [hkey _ hx, hkey _ hy]
  exact hlt

/-- Different records have different keys. -/
theorem Ascending.injective (h : Ascending key T) {y z : ρ} (hy : y ∈ records T) (hz : z ∈ records T)
    (heq : key y = key z) : y = z := by
  by_contra hne
  have hsymm : Std.Symm fun y z : ρ => key y ≠ key z := ⟨fun _ _ h => h.symm⟩
  have hpairs : (records T).Pairwise fun y z => key y ≠ key z :=
    h.imp fun hlt => ne_of_lt hlt
  exact hpairs.forall hy hz hne heq

/-- Different nodes have different records. -/
theorem Ascending.node_injective (h : Ascending key T) {m n : Nat × ρ} (hm : m ∈ T.inorder)
    (hn : n ∈ T.inorder) (heq : m.2 = n.2) : m = n := by
  by_contra hne
  have hsymm : Std.Symm fun m n : Nat × ρ => m.2 ≠ n.2 := ⟨fun _ _ h => h.symm⟩
  have hpairs : T.inorder.Pairwise fun m n => m.2 ≠ n.2 := by
    rw [Ascending, records, List.pairwise_map] at h
    refine h.imp fun hlt heq => ?_
    rw [heq] at hlt
    exact lt_irrefl _ hlt
  exact hpairs.forall hm hn hne heq

/-- The pool of free nodes. -/
theorem chain_freeNodeList {N : Nat} (hN : 0 < N) (hpool : t.mpNodeList = freeNodeList N) :
    Chain (fun p => t.subTree p parentSubTree) (some 0) (List.range N) := by
  rw [List.range_eq_range']
  have hchain := Chain.range' (fun p => t.subTree p parentSubTree) (i := 0) (n := N)
    (fun k _ hk => by
      simp only [subTree, hpool, freeNodeList, Function.update_self]
      by_cases hlast : k = N - 1
      · rw [if_pos hlast, if_neg (by omega)]
      · rw [if_neg hlast, if_pos (by omega)])
  rw [if_pos hN] at hchain
  exact hchain

theorem wellFormed_create {N : Nat} (hN : 0 < N) (index : Nat) :
    WellFormed key (create N index : AvlTree ρ) nil (List.range N) :=
  ⟨rfl, List.Pairwise.nil, trivial, chain_freeNodeList hN rfl, List.Perm.refl _, rfl⟩

theorem WellFormed.clear (hN : 0 < t.mNbMaxElement_U32) :
    WellFormed key t.clear nil (List.range t.mNbMaxElement_U32) :=
  ⟨rfl, List.Pairwise.nil, trivial, chain_freeNodeList hN rfl, List.Perm.refl _, rfl⟩

/-! ## Inserting -/

theorem WellFormed.insert_present (h : WellFormed key t T free)
    (hcmp : ComparesBy (compare t.mIndex_U32) key) {n : Nat × ρ} (hn : n ∈ T.inorder)
    (hkey : key n.2 = key x) : t.insert compare x = some (t, .node n.1) := by
  obtain ⟨ch, heq⟩ := insertNode_present hcmp h.height_lt h.tree h.ascending hn hkey 0
  rw [insert, heq]
  rfl

theorem WellFormed.insert_full (h : WellFormed key t T []) (hcmp : ComparesBy (compare t.mIndex_U32) key)
    (hnew : ∀ n ∈ T.inorder, key n.2 ≠ key x) : t.insert compare x = some (t, .signalError) := by
  obtain ⟨ch, heq⟩ := insertNode_full hcmp h.height_lt h.tree hnew h.chain 0
  rw [insert, heq]
  rfl

/-- The records with the new one in its place. -/
theorem orderedInsert_eq {l₁ l₂ : List ρ} (h₁ : ∀ y ∈ l₁, key y < key x) (h₂ : ∀ y ∈ l₂, key x < key y) :
    (l₁ ++ l₂).orderedInsert (fun y z => key y ≤ key z) x = l₁ ++ x :: l₂ := by
  induction l₁ with
  | nil =>
    cases l₂ with
    | nil => rfl
    | cons y l₂ =>
      rw [List.nil_append, List.orderedInsert, if_pos (le_of_lt (h₂ y List.mem_cons_self))]
      rfl
  | cons y l₁ ih =>
    rw [List.forall_mem_cons] at h₁
    rw [List.cons_append, List.orderedInsert, if_neg (not_le_of_gt h₁.1), ih h₁.2]
    rfl

theorem pairwise_insert {l₁ l₂ : List ρ} (h : (l₁ ++ l₂).Pairwise fun y z => key y < key z)
    (h₁ : ∀ y ∈ l₁, key y < key x) (h₂ : ∀ y ∈ l₂, key x < key y) :
    (l₁ ++ x :: l₂).Pairwise fun y z => key y < key z := by
  rw [List.pairwise_append] at h ⊢
  refine ⟨h.1, List.pairwise_cons.mpr ⟨h₂, h.2.1⟩, ?_⟩
  intro y hy z hz
  rcases List.mem_cons.mp hz with rfl | hz
  · exact h₁ y hy
  · exact h.2.2 y hy z hz

/-- `Insert` of a new key takes the first free node. -/
theorem WellFormed.insert_new (h : WellFormed key t T (f :: free))
    (hcmp : ComparesBy (compare t.mIndex_U32) key) (hnew : ∀ n ∈ T.inorder, key n.2 ≠ key x)
    (hlt : t.mNbMaxElement_U32 < 4294967296) :
    ∃ t' T', t.insert compare x = some (t', .null) ∧ WellFormed key t' T' free ∧
      records T' = (records T).orderedInsert (fun y z => key y ≤ key z) x ∧
      t'.mIndex_U32 = t.mIndex_U32 ∧ t'.mNbMaxElement_U32 = t.mNbMaxElement_U32 ∧
      (f, x) ∈ T'.inorder ∧ ∀ n ∈ T.inorder, n ∈ T'.inorder := by
  have hnd := h.nodup
  rw [List.nodup_append', List.nodup_cons, List.disjoint_cons_right] at hnd
  obtain ⟨hndT, ⟨hffree, -⟩, hfT, hdis⟩ := hnd
  have hlen := h.length
  rw [List.length_cons] at hlen
  obtain ⟨t₁, ptr, T', ch, heq, hins⟩ := insertNode_new hcmp h.height_lt h.tree hndT h.balanced
    h.ascending hnew h.chain.1 hfT 0
  obtain ⟨l₁, l₂, h₁, h₂, hlt₁, hlt₂⟩ := hins.inorder
  have hrec : records T = l₁.map Prod.snd ++ l₂.map Prod.snd := by rw [records, h₁, List.map_append]
  have hrec' : records T' = l₁.map Prod.snd ++ x :: l₂.map Prod.snd := by
    rw [records, h₂, List.map_append, List.map_cons]
  have hbelow : ∀ y ∈ l₁.map Prod.snd, key y < key x := by
    intro y hy
    obtain ⟨n, hn, rfl⟩ := List.mem_map.mp hy
    exact hlt₁ n hn
  have habove : ∀ y ∈ l₂.map Prod.snd, key x < key y := by
    intro y hy
    obtain ⟨n, hn, rfl⟩ := List.mem_map.mp hy
    exact hlt₂ n hn
  have hasc := h.ascending
  rw [Ascending, hrec] at hasc
  refine ⟨{ t₁ with mpRoot := ptr, mNbNode_U32 := u32 (t₁.mNbNode_U32 + 1) }, T', ?_,
    ⟨?_, ?_, hins.balanced, ?_, ?_, ?_⟩, ?_, hins.same.index, hins.same.nbMax, ?_, ?_⟩
  · rw [insert, heq]
    rfl
  · exact hins.tree.congr fun _ _ => rfl
  · rw [Ascending, hrec']
    exact pairwise_insert hasc hbelow habove
  · show Chain (fun p => t₁.subTree p parentSubTree) t₁.mpNextRamDbFreeNode free
    rw [hins.free]
    refine h.chain.2.congr fun i hi => hins.same.subTree ?_
    rw [List.mem_cons, not_or]
    exact ⟨fun heq => hffree (heq ▸ hi), fun hiT => hdis hiT hi⟩
  · show (ids T' ++ free).Perm (List.range t₁.mNbMaxElement_U32)
    rw [hins.same.nbMax]
    refine List.Perm.trans ?_ h.pool
    exact (hins.perm_ids.append_right free).trans List.perm_middle.symm
  · show u32 (t₁.mNbNode_U32 + 1) = (ids T').length
    rw [hins.same.nbNode, h.count, hins.perm_ids.length_eq, List.length_cons, u32_of_lt (by omega)]
  · rw [hrec', hrec, orderedInsert_eq hbelow habove]
  · rw [h₂]
    exact List.mem_append_right _ List.mem_cons_self
  · intro n hn
    rw [h₁] at hn
    rw [h₂]
    rcases List.mem_append.mp hn with hn | hn
    · exact List.mem_append_left _ hn
    · exact List.mem_append_right _ (List.mem_cons_of_mem _ hn)

/-! ## Deleting -/

theorem WellFormed.delete_absent (h : WellFormed key t T free)
    (hcmp : ComparesBy (compare t.mIndex_U32) key) (hnew : ∀ n ∈ T.inorder, key n.2 ≠ key x) :
    t.delete compare x .equal = some (t, none) := by
  rw [delete, deleteNode_absent hcmp h.height_lt h.tree hnew]
  rfl

theorem RemovedFrom.records_eq {n : Nat × ρ} (h : RemovedFrom n f T T') :
    ∃ l₁ l₂, records T = l₁ ++ n.2 :: l₂ ∧ records T' = l₁ ++ l₂ := by
  obtain ⟨l₁, l₂, h₁, ⟨-, h₂⟩ | ⟨z, l₃, h₂, h₃⟩⟩ := h
  · refine ⟨l₁.map Prod.snd, l₂.map Prod.snd, ?_, ?_⟩
    · rw [records, h₁, List.map_append, List.map_cons]
    · rw [records, h₂, List.map_append]
  · refine ⟨l₁.map Prod.snd, l₂.map Prod.snd, ?_, ?_⟩
    · rw [records, h₁, List.map_append, List.map_cons]
    · rw [records, h₃, h₂, List.map_append, List.map_cons, List.map_cons]

/-- The records without the one with the key. -/
theorem filter_eq {l₁ l₂ : List ρ} {y : ρ} (h : (l₁ ++ y :: l₂).Pairwise fun y z => key y < key z)
    (hy : key y = key x) : (l₁ ++ y :: l₂).filter (fun z => key z ≠ key x) = l₁ ++ l₂ := by
  rw [List.pairwise_append, List.pairwise_cons] at h
  have h₁ : l₁.filter (fun z => key z ≠ key x) = l₁ := by
    refine List.filter_eq_self.mpr fun z hz => ?_
    have hlt := h.2.2 z hz y List.mem_cons_self
    rw [decide_eq_true_eq, ← hy]
    exact ne_of_lt hlt
  have h₂ : l₂.filter (fun z => key z ≠ key x) = l₂ := by
    refine List.filter_eq_self.mpr fun z hz => ?_
    have hlt := h.2.1.1 z hz
    rw [decide_eq_true_eq, ← hy]
    exact ne_of_gt hlt
  rw [List.filter_append, List.filter_cons_of_neg (by simp [hy]), h₁, h₂]

/-- After `Delete` the node that is no longer in the tree is the first of the free ones. -/
theorem WellFormed.delete_removed (h : WellFormed key t T free) {cmp : BofCmp} {t₁ : AvlTree ρ}
    {ptr : Option Nat} {y : ρ} {ch : Int}
    (heq : deleteNode compare t.fuel t x t.mpRoot cmp = some (t₁, ptr, some y, ch))
    (hrem : Removed t T none t₁ ptr T' ch f) (hasc : Ascending key T') :
    ∃ t', t.delete compare x cmp = some (t', some y) ∧ WellFormed key t' T' (f :: free) ∧
      t'.mIndex_U32 = t.mIndex_U32 ∧ t'.mNbMaxElement_U32 = t.mNbMaxElement_U32 := by
  have hnd := h.nodup
  rw [List.nodup_append'] at hnd
  obtain ⟨-, -, hdis⟩ := hnd
  have hlen := h.length
  have hcount := hrem.nodes.length_eq
  rw [List.length_cons] at hcount
  refine ⟨{ t₁ with mpRoot := ptr, mNbNode_U32 := u32Sub t₁.mNbNode_U32 1 }, ?_,
    ⟨?_, hasc, hrem.balanced, ?_, ?_, ?_⟩, hrem.same.index, hrem.same.nbMax⟩
  · rw [delete, heq]
    rfl
  · exact hrem.tree.congr fun _ _ => rfl
  · show Chain (fun p => t₁.subTree p parentSubTree) t₁.mpNextRamDbFreeNode (f :: free)
    rw [hrem.free]
    refine h.chain.push hrem.link fun i hi => hrem.same.subTree ?_
    exact fun hiT => hdis hiT hi
  · show (ids T' ++ f :: free).Perm (List.range t₁.mNbMaxElement_U32)
    rw [hrem.same.nbMax]
    refine List.Perm.trans ?_ h.pool
    exact List.perm_middle.trans (hrem.nodes.symm.append_right free)
  · show u32Sub t₁.mNbNode_U32 1 = (ids T').length
    rw [hrem.same.nbNode, h.count, hcount, u32Sub_of_le (by omega), Nat.add_sub_cancel]

/-- `Delete` of a key that is present puts one of the nodes in front of the free ones. -/
theorem WellFormed.delete_present (h : WellFormed key t T free)
    (hcmp : ComparesBy (compare t.mIndex_U32) key) {n : Nat × ρ} (hn : n ∈ T.inorder)
    (hkey : key n.2 = key x) :
    ∃ t' T' f, t.delete compare x .equal = some (t', some n.2) ∧ WellFormed key t' T' (f :: free) ∧
      records T' = (records T).filter (fun z => key z ≠ key x) ∧
      t'.mIndex_U32 = t.mIndex_U32 ∧ t'.mNbMaxElement_U32 = t.mNbMaxElement_U32 ∧
      RemovedFrom n f T T' ∧
      (f ≠ n.1 → t.subTree n.1 leftSubTree ≠ none ∧ t.subTree n.1 rightSubTree ≠ none) := by
  have hndT := (List.nodup_append'.mp h.nodup).1
  obtain ⟨t₁, ptr, T', ch, f, heq, hrem, hfrom, htwo⟩ := deleteNode_present hcmp h.height_lt h.tree hndT
    h.balanced h.ascending hn hkey
  obtain ⟨l₁, l₂, hrec, hrec'⟩ := hfrom.records_eq
  have hasc := h.ascending
  rw [Ascending, hrec] at hasc
  have hasc' : Ascending key T' := by
    rw [Ascending, hrec']
    exact hasc.sublist ((List.Sublist.refl l₁).append (List.sublist_cons_self _ _))
  obtain ⟨t', hdel, hw, hindex, hnb⟩ := h.delete_removed heq hrem hasc'
  refine ⟨t', T', f, hdel, hw, ?_, hindex, hnb, hfrom, htwo⟩
  rw [hrec', hrec, filter_eq hasc hkey]

/-! ## Runs -/

/-- The tree and the map hold the same records. -/
structure MapRel (compare : Nat → ρ → ρ → BofCmp) (key : ρ → K) (t : AvlTree ρ) (m : SortedMap ρ) :
    Prop where
  wellFormed : ∃ T free, WellFormed key t T free ∧ m.records = records T
  compares : ComparesBy (compare t.mIndex_U32) key
  nbMax : m.nbMax = t.mNbMaxElement_U32
  pos : 0 < t.mNbMaxElement_U32
  lt : t.mNbMaxElement_U32 < 4294967296

/-- Either the map holds a record with the key, and so does a node, or no node does. -/
theorem find_cases (T : BinaryTree (Nat × ρ)) (key : ρ → K) (x : ρ) :
    (∃ n ∈ T.inorder, key n.2 = key x ∧ (records T).find? (fun y => key y = key x) = some n.2) ∨
    ((∀ n ∈ T.inorder, key n.2 ≠ key x) ∧ (records T).find? (fun y => key y = key x) = none) := by
  cases hfind : (records T).find? fun y => key y = key x with
  | some y =>
    obtain ⟨n, hn, rfl⟩ := mem_records.mp (List.mem_of_find?_eq_some hfind)
    have hkey := List.find?_some hfind
    exact Or.inl ⟨n, hn, of_decide_eq_true hkey, rfl⟩
  | none =>
    refine Or.inr ⟨fun n hn => ?_, rfl⟩
    have hne := List.find?_eq_none.mp hfind n.2 (mem_records.mpr ⟨n, hn, rfl⟩)
    rw [decide_eq_true_eq] at hne
    exact hne

theorem Represents.data_of_mem {par ptr : Option Nat} (h : Represents t par ptr T) {n : Nat × ρ}
    (hn : n ∈ T.inorder) : t.data n.1 = some n.2 := by
  induction T generalizing par ptr with
  | nil => exact absurd hn List.not_mem_nil
  | node m l r ihl ihr =>
    obtain ⟨-, hx, -, -, hl, hr⟩ := represents_node.mp h
    rw [inorder_node] at hn
    rcases List.mem_append.mp hn with hn | hn
    · exact ihl hl hn
    · rcases List.mem_cons.mp hn with rfl | hn
      · exact hx
      · exact ihr hr hn

theorem MapRel.of_same {m m' : SortedMap ρ} (h : MapRel compare key t m) (hw : WellFormed key t' T' free)
    (hrec : m'.records = records T') (hindex : t'.mIndex_U32 = t.mIndex_U32)
    (hnb : t'.mNbMaxElement_U32 = t.mNbMaxElement_U32) (hmax : m'.nbMax = m.nbMax) :
    MapRel compare key t' m' := by
  obtain ⟨-, hcmp, hmax', hpos, hlt⟩ := h
  refine ⟨⟨T', free, hw, hrec⟩, ?_, ?_, ?_, ?_⟩
  · rw [hindex]
    exact hcmp
  · rw [hmax, hmax', hnb]
  · rw [hnb]
    exact hpos
  · rw [hnb]
    exact hlt

/-- One call: the tree does what the map does, and changes nothing when the map refuses. -/
theorem MapRel.step {m : SortedMap ρ} (h : MapRel compare key t m) (op : Op ρ) :
    MapRel compare key (step compare t op).1 (m.step key op).1 ∧
    (step compare t op).2.answers (m.step key op).2 ∧
    ((m.step key op).2.IsRefusal → (step compare t op).1 = t) := by
  have hrel := h
  obtain ⟨⟨T, free, hw, hrec⟩, hcmp, hmax, hpos, hlt⟩ := h
  cases op with
  | insert x =>
    rcases find_cases T key x with ⟨n, hn, hkey, hfind⟩ | ⟨hnew, hfind⟩
    · simp only [AvlTree.step, SortedMap.step, hrec, hfind, hw.insert_present hcmp hn hkey, rtsData,
        hw.tree.data_of_mem hn]
      exact ⟨hrel, rfl, fun _ => trivial⟩
    · have hlen := hw.length
      have hlen' : (records T).length = (ids T).length := by
        rw [records, ids, List.length_map, List.length_map]
      cases free with
      | nil =>
        rw [List.length_nil] at hlen
        simp only [AvlTree.step, SortedMap.step, hrec, hfind, hw.insert_full hcmp hnew]
        rw [if_neg (by omega)]
        exact ⟨hrel, trivial, fun _ => trivial⟩
      | cons f free =>
        rw [List.length_cons] at hlen
        obtain ⟨t', T', heq, hw', hrec', hindex, hnb, -⟩ := hw.insert_new hcmp hnew hlt
        simp only [AvlTree.step, SortedMap.step, hrec, hfind, heq]
        rw [if_pos (by omega)]
        exact ⟨hrel.of_same hw' hrec'.symm hindex hnb rfl, trivial, fun hno => hno.elim⟩
  | delete x =>
    rcases find_cases T key x with ⟨n, hn, hkey, hfind⟩ | ⟨hnew, hfind⟩
    · obtain ⟨t', T', f, heq, hw', hrec', hindex, hnb, -⟩ := hw.delete_present hcmp hn hkey
      simp only [AvlTree.step, SortedMap.step, hrec, hfind, heq]
      exact ⟨hrel.of_same hw' hrec'.symm hindex hnb rfl, rfl, fun hno => hno.elim⟩
    · simp only [AvlTree.step, SortedMap.step, hrec, hfind, hw.delete_absent hcmp hnew]
      exact ⟨hrel, trivial, fun _ => trivial⟩
  | clear =>
    exact ⟨hrel.of_same (WellFormed.clear hpos) rfl rfl rfl rfl, trivial, fun hno => hno.elim⟩

/-- The node that `Insert` returns is the one with the key. -/
theorem MapRel.existing {m : SortedMap ρ} (h : MapRel compare key t m) {p : Nat} {d : Option ρ}
    (heq : (AvlTree.step compare t (.insert x)).2 = .inserted (.node p) d) :
    ∃ T free y, WellFormed key t T free ∧ (p, y) ∈ T.inorder ∧ key y = key x := by
  obtain ⟨⟨T, free, hw, -⟩, hcmp, -, -, hlt⟩ := h
  rcases find_cases T key x with ⟨n, hn, hkey, -⟩ | ⟨hnew, -⟩
  · simp only [AvlTree.step, hw.insert_present hcmp hn hkey, Out.inserted.injEq,
      AvlInsertRts.node.injEq] at heq
    obtain ⟨rfl, -⟩ := heq
    exact ⟨T, free, n.2, hw, hn, hkey⟩
  · cases free with
    | nil =>
      simp only [AvlTree.step, hw.insert_full hcmp hnew] at heq
      exact absurd heq (by simp)
    | cons f free =>
      obtain ⟨t', T', hins, -⟩ := hw.insert_new hcmp hnew hlt
      simp only [AvlTree.step, hins] at heq
      exact absurd heq (by simp)

/-- `BofAvlTree` is a balanced search tree over its pool of nodes and follows the map, on every run. -/
theorem avlTree_isCorrectMap (compare : Nat → ρ → ρ → BofCmp) (key : ρ → K) (nbMaxElement index : Nat)
    (hcmp : ComparesBy (compare index) key) (hpos : 0 < nbMaxElement) (hlt : nbMaxElement < 4294967296)
    (ops : List (Op ρ)) : IsCorrectMap compare key nbMaxElement index ops := by
  have hcreate : MapRel compare key (create nbMaxElement index) ⟨nbMaxElement, []⟩ :=
    ⟨⟨nil, _, wellFormed_create hpos index, rfl⟩, hcmp, rfl, hpos, hlt⟩
  have hrun : ∀ ops : List (Op ρ), MapRel compare key
        (run (step compare) (create nbMaxElement index) ops).1
        (run (SortedMap.step key) ⟨nbMaxElement, []⟩ ops).1 ∧
      List.Forall₂ Out.answers (run (step compare) (create nbMaxElement index) ops).2
        (run (SortedMap.step key) ⟨nbMaxElement, []⟩ ops).2 := fun ops =>
    sim_run_rel (fun t m op h _ => ⟨(h.step op).1, (h.step op).2.1⟩) hcreate
      (meets_of_forall (fun _ _ => trivial) _ ops)
  refine ⟨?_, (hrun ops).2, ?_, ?_⟩
  · obtain ⟨T, free, hw, hrec⟩ := (hrun ops).1.wellFormed
    exact ⟨T, free, hw, hrec.symm⟩
  · rintro ops₁ op ops₂ - hrefusal
    exact ((hrun ops₁).1.step op).2.2 hrefusal
  · rintro ops₁ x ops₂ p d - heq
    exact (hrun ops₁).1.existing heq

/-- Two nodes: the third record finds no free node until one is deleted. -/
theorem isCorrectMap_two_nodes :
    IsCorrectMap (fun _ x y : Nat => if y < x then BofCmp.less else if y = x then .equal else .greater)
      id 2 0 [.insert 5, .insert 3, .insert 5, .insert 9, .delete 5, .insert 9, .delete 4, .clear] :=
  avlTree_isCorrectMap _ _ _ _ (fun _ _ => rfl) (by decide) (by decide) _

end BofStd.AvlTree
