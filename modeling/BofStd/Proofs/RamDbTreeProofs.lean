import BofStd.RamDbSpec
import BofStd.Proofs.AvlWalkProofs

/-!
# `BofRamDb`: the loops over the trees

`Holds` says which elements the tree of one index points to. The keys are those of the records that are
in the elements at the time, so a record may be written to an element that no tree points to, or over
one with the same keys (`Holds.congr`). `Gains` and `Loses` say what becomes of the single nodes. The
loops over the trees are treated with one lemma for a single tree and one induction each.
-/

namespace BofStd.RamDb

open AvlTree BinaryTree

variable {R : Type} {K : Nat → Type} [∀ i, LinearOrder (K i)] {kt : RamDbKeyType R}
  {key : ∀ i, R → K i} {s s' : RamDb R} {t : AvlTree (RamDbPtr R)} {i f p : Nat} {l : List Nat}
  {x : RamDbPtr R}

/-- The key of the record that a pointer points to. -/
def keyOf (key : ∀ i, R → K i) (s : RamDb R) (i : Nat) (x : RamDbPtr R) : K i := key i (s.deref x)

/-- The tree `t` of the index `i` points to the elements `l`. -/
structure Holds (key : ∀ i, R → K i) (s : RamDb R) (i : Nat) (t : AvlTree (RamDbPtr R))
    (l : List Nat) : Prop where
  tree : ∃ T free, WellFormed (keyOf key s i) t T free ∧ (records T).Perm (l.map .element)
  index : t.mIndex_U32 = i
  nbMax : t.mNbMaxElement_U32 = s.mNbMaxElement_U32

/-! ## One tree -/

theorem Holds.compares (h : Holds key s i t l) (hkt : ∀ i, ComparesBy (kt.compare i) (key i)) :
    ComparesBy (s.comparePtr kt t.mIndex_U32) (keyOf key s i) := by
  rw [h.index]
  exact fun x y => hkt i _ _

/-- The elements of the tree may be overwritten by records with the same key. -/
theorem Holds.congr (h : Holds key s i t l)
    (hkey : ∀ p ∈ l, key i (s'.mpElementList p) = key i (s.mpElementList p))
    (hnb : s'.mNbMaxElement_U32 = s.mNbMaxElement_U32) : Holds key s' i t l := by
  obtain ⟨T, free, hw, hperm⟩ := h.tree
  refine ⟨⟨T, free, hw.congr_key fun y hy => ?_, hperm⟩, h.index, h.nbMax.trans hnb.symm⟩
  obtain ⟨p, hp, rfl⟩ := List.mem_map.mp (hperm.mem_iff.mp hy)
  exact hkey p hp

/-- The element `f` is put into the first free node, and all the nodes keep their records. -/
structure Gains (t : AvlTree (RamDbPtr R)) (f : Nat) (t' : AvlTree (RamDbPtr R)) : Prop where
  kept : ∀ n ∈ t.nodes, n ∈ t'.nodes
  new : ∀ p, t.mpNextRamDbFreeNode = some p → (p, .element f) ∈ t'.nodes

/-- The element `f` is taken out, which frees its node, and the other nodes keep their records; this says
nothing about the nodes `moved`. -/
structure Loses (moved : Nat → Bool) (t : AvlTree (RamDbPtr R)) (f : Nat) (t' : AvlTree (RamDbPtr R)) :
    Prop where
  kept : ∀ n ∈ t.nodes, moved n.1 = false → n.2 ≠ .element f → n ∈ t'.nodes
  freed : ∀ n ∈ t.nodes, moved n.1 = false → n.2 = .element f → t'.mpNextRamDbFreeNode = some n.1

/-- Different elements have different keys. -/
theorem Holds.injective (h : Holds key s i t l) {q : Nat} (hp : p ∈ l) (hq : q ∈ l)
    (hkey : key i (s.mpElementList p) = key i (s.mpElementList q)) : p = q := by
  obtain ⟨T, free, hw, hperm⟩ := h.tree
  have hmem : ∀ j ∈ l, RamDbPtr.element j ∈ records T := fun j hj =>
    hperm.mem_iff.mpr (List.mem_map_of_mem hj)
  exact RamDbPtr.element.inj (hw.ascending.injective (hmem p hp) (hmem q hq) hkey)

/-- The tree gets the element, or refuses it and stays as it is. -/
theorem Holds.insert (h : Holds key s i t l) (hkt : ∀ i, ComparesBy (kt.compare i) (key i))
    (hlt : s.mNbMaxElement_U32 < 4294967296) (f : Nat) :
    (∃ t', t.insert (s.comparePtr kt) (.element f) = some (t', .null) ∧
      Holds key s i t' (f :: l) ∧ Gains t f t') ∨
    ∃ rts, rts ≠ .null ∧ t.insert (s.comparePtr kt) (.element f) = some (t, rts) ∧
      (s.mNbMaxElement_U32 ≤ l.length ∨
        ∃ p ∈ l, keyOf key s i (.element p) = keyOf key s i (.element f)) := by
  have hcmp := h.compares hkt
  obtain ⟨T, free, hw, hperm⟩ := h.tree
  rcases find_cases T (keyOf key s i) (.element f) with ⟨n, hn, hkey, -⟩ | ⟨hnew, -⟩
  · obtain ⟨p, hp, hpn⟩ := List.mem_map.mp (hperm.mem_iff.mp (mem_records.mpr ⟨n, hn, rfl⟩))
    exact Or.inr ⟨_, by simp, hw.insert_present hcmp hn hkey, Or.inr ⟨p, hp, by rw [hpn, hkey]⟩⟩
  · cases free with
    | nil =>
      refine Or.inr ⟨_, by simp, hw.insert_full hcmp hnew, Or.inl ?_⟩
      have hlen := hw.length
      have hlen' := hperm.length_eq
      rw [records, List.length_map, List.length_map] at hlen'
      rw [ids, List.length_map, h.nbMax, List.length_nil] at hlen
      omega
    | cons g free =>
      obtain ⟨t', T', heq, hw', hrec, hindex, hnb, hg, hkept⟩ :=
        hw.insert_new hcmp hnew (h.nbMax ▸ hlt)
      refine Or.inl ⟨t', heq, ⟨⟨T', free, hw', ?_⟩, hindex.trans h.index, hnb.trans h.nbMax⟩, ?_, ?_⟩
      · rw [hrec, List.map_cons]
        exact (List.perm_orderedInsert _ _ _).trans (hperm.cons _)
      · rw [hw.nodes_eq, hw'.nodes_eq]
        exact hkept
      · intro p hp
        obtain rfl : g = p := Option.some.inj (hw.chain.1.symm.trans hp)
        rw [hw'.nodes_eq]
        exact hg

theorem loses_of_removedFrom {compare : Nat → RamDbPtr R → RamDbPtr R → BofCmp} {K' : Type}
    [LinearOrder K'] {key' : RamDbPtr R → K'} {t' : AvlTree (RamDbPtr R)}
    {T T' : BinaryTree (Nat × RamDbPtr R)} {g : Nat} {free free' : List Nat}
    (h : WellFormed key' t T free) (hcmp : ComparesBy (compare t.mIndex_U32) key')
    {n : Nat × RamDbPtr R} (hn : n ∈ T.inorder) (hkey : key' n.2 = key' x) (hnp : n.2 = .element p)
    (h' : WellFormed key' t' T' (g :: free')) (hfrom : RemovedFrom n g T T')
    (htwo : g ≠ n.1 → t.subTree n.1 .leftSubTree ≠ none ∧ t.subTree n.1 .rightSubTree ≠ none) :
    Loses (t.moves compare x) t p t' := by
  have hmoved : ∀ {q}, t.moves compare x q = false → g = n.1 ∨ q ≠ n.1 ∧ q ≠ g :=
    h.moves_eq_false hcmp hn hkey hfrom htwo
  constructor
  · intro m hm hmoves hne
    rw [h.nodes_eq] at hm
    rw [h'.nodes_eq]
    obtain ⟨l₁, l₂, h₁, h₂⟩ := hfrom
    rw [h₁, List.mem_append, List.mem_cons] at hm
    rcases h₂ with ⟨-, h₂⟩ | ⟨z, l₃, rfl, h₃⟩
    · rw [h₂]
      rcases hm with hm | rfl | hm
      · exact List.mem_append_left _ hm
      · exact absurd hnp hne
      · exact List.mem_append_right _ hm
    · rw [h₃]
      rcases hm with hm | rfl | hm
      · exact List.mem_append_left _ hm
      · exact absurd hnp hne
      · rcases List.mem_cons.mp hm with rfl | hm
        · -- the record of the next node, which has not moved
          rcases hmoved hmoves with hg | ⟨-, hg⟩
          · rw [hg]
            exact List.mem_append_right _ List.mem_cons_self
          · exact absurd rfl hg
        · exact List.mem_append_right _ (List.mem_cons_of_mem _ hm)
  · intro m hm hmoves hmp
    rw [h.nodes_eq] at hm
    obtain rfl : m = n := h.ascending.node_injective hm hn (hmp.trans hnp.symm)
    rcases hmoved hmoves with hg | ⟨hne, -⟩
    · rw [← hg]
      exact h'.chain.1
    · exact absurd rfl hne

/-- The element with the key of `x` is taken out of the tree. -/
theorem Holds.delete (h : Holds key s i t l) (hkt : ∀ i, ComparesBy (kt.compare i) (key i))
    (hnd : l.Nodup) (hp : p ∈ l) (hkey : keyOf key s i (.element p) = keyOf key s i x) :
    ∃ t', t.delete (s.comparePtr kt) x .equal = some (t', some (.element p)) ∧
      Holds key s i t' (l.erase p) ∧ Loses (t.moves (s.comparePtr kt) x) t p t' := by
  have hcmp := h.compares hkt
  obtain ⟨T, free, hw, hperm⟩ := h.tree
  have hmem : ∀ j ∈ l, RamDbPtr.element j ∈ records T := fun j hj =>
    hperm.mem_iff.mpr (List.mem_map_of_mem hj)
  obtain ⟨n, hn, hnp⟩ := mem_records.mp (hmem p hp)
  obtain ⟨t', T', g, heq, hw', hrec, hindex, hnb, hfrom, htwo⟩ := hw.delete_present (x := x) hcmp hn
    (by rw [hnp, hkey])
  rw [hnp] at heq
  refine ⟨t', heq, ⟨⟨T', g :: free, hw', ?_⟩, hindex.trans h.index, hnb.trans h.nbMax⟩,
    loses_of_removedFrom hw hcmp hn (by rw [hnp, hkey]) hnp hw' hfrom htwo⟩
  rw [hrec]
  refine (hperm.filter _).trans ?_
  rw [List.filter_map, hnd.erase_eq_filter]
  apply List.Perm.of_eq
  congr 1
  refine List.filter_congr fun j hj => ?_
  by_cases hjp : j = p
  · simp [hjp, hkey]
  · have hne : keyOf key s i (.element j) ≠ keyOf key s i x := fun hj' =>
      hjp (h.injective hj hp (hj'.trans hkey.symm))
    simp [hjp, hne]

/-- The search finds the node of an element with the key of `x`, or there is none. -/
theorem Holds.search (h : Holds key s i t l) (hkt : ∀ i, ComparesBy (kt.compare i) (key i))
    (x : RamDbPtr R) :
    (∃ n p, t.search (s.comparePtr kt) x .equal = some (some n) ∧ t.data n = some (.element p) ∧
      p ∈ l ∧ keyOf key s i (.element p) = keyOf key s i x) ∨
    (t.search (s.comparePtr kt) x .equal = some none ∧
      ∀ p ∈ l, keyOf key s i (.element p) ≠ keyOf key s i x) := by
  have hcmp := h.compares hkt
  obtain ⟨T, free, hw, hperm⟩ := h.tree
  rcases find_cases T (keyOf key s i) x with ⟨n, hn, hkey, -⟩ | ⟨hnew, -⟩
  · obtain ⟨p, hp, hpn⟩ := List.mem_map.mp (hperm.mem_iff.mp (mem_records.mpr ⟨n, hn, rfl⟩))
    refine Or.inl ⟨n.1, p, hw.search_present hcmp hn hkey, ?_, hp, ?_⟩
    · rw [hw.tree.data_of_mem hn, hpn]
    · rw [hpn, hkey]
  · refine Or.inr ⟨hw.search_absent hcmp hnew, fun p hp => ?_⟩
    obtain ⟨n, hn, hnp⟩ := mem_records.mp (hperm.mem_iff.mpr (List.mem_map_of_mem hp))
    rw [← hnp]
    exact hnew n hn

/-! ## The loops -/

/-- The data base with other trees. -/
def withTrees (s : RamDb R) (trees : Nat → AvlTree (RamDbPtr R)) : RamDb R :=
  { s with mppRamDbTree := trees }

/-- The loop of `InsertElement`: the trees before the one where it stops have got the element. It stops
early when a tree is full or has the key. -/
theorem insertInTrees_spec (hkt : ∀ i, ComparesBy (kt.compare i) (key i))
    (hlt : s.mNbMaxElement_U32 < 4294967296) (f : Nat) {n : Nat}
    (h : ∀ j, i ≤ j → j < i + n → Holds key s j (s.mppRamDbTree j) l) :
    ∃ trees stop duplicate,
      s.insertInTrees kt (.element f) n i = some (s.withTrees trees, stop, duplicate) ∧
      i ≤ stop ∧ stop ≤ i + n ∧ (duplicate = false → stop = i + n) ∧
      (duplicate = true → s.mNbMaxElement_U32 ≤ l.length ∨ ∃ j, i ≤ j ∧ j < i + n ∧
        ∃ p ∈ l, keyOf key s j (.element p) = keyOf key s j (.element f)) ∧
      (∀ j, i ≤ j → j < stop →
        Holds key s j (trees j) (f :: l) ∧ Gains (s.mppRamDbTree j) f (trees j)) ∧
      ∀ j, j < i ∨ stop ≤ j → trees j = s.mppRamDbTree j := by
  induction n generalizing i s with
  | zero =>
    exact ⟨s.mppRamDbTree, i, false, rfl, Nat.le_refl _, Nat.le_refl _, fun _ => rfl,
      fun hd => absurd hd (by simp), fun j h1 h2 => absurd h2 (Nat.not_lt.mpr h1), fun _ _ => rfl⟩
  | succ n ih =>
    rw [insertInTrees]
    rcases (h i (Nat.le_refl _) (by omega)).insert hkt hlt f with
      ⟨t', heq, hholds⟩ | ⟨rts, hne, heq, hclash⟩
    · have hother : ∀ j, j ≠ i → (s.setTree i t').mppRamDbTree j = s.mppRamDbTree j :=
        fun j hj => Function.update_of_ne hj _ _
      obtain ⟨trees, stop, duplicate, hrec, hle, hle', hdup, hclash, hnew, hold⟩ :=
        ih (s := s.setTree i t') (i := i + 1) hlt fun j h1 h2 => by
          rw [hother j (by omega)]
          exact (h j (by omega) (by omega)).congr (fun _ _ => rfl) rfl
      refine ⟨trees, stop, duplicate, ?_, by omega, by omega, fun hd => by have := hdup hd; omega,
        fun hd => ?_, ?_, ?_⟩
      · simp only [heq, Option.bind_eq_bind, Option.bind_some, ne_eq, not_true_eq_false, if_false]
        exact hrec
      · rcases hclash hd with hfull | ⟨j, h1, h2, hj⟩
        · exact Or.inl hfull
        · exact Or.inr ⟨j, by omega, by omega, hj⟩
      · intro j h1 h2
        by_cases hj : j = i
        · subst hj
          have hself : trees j = t' := (hold j (Or.inl (by omega))).trans (Function.update_self _ _ _)
          rw [hself]
          exact hholds
        · obtain ⟨hj', hgains⟩ := hnew j (by omega) h2
          rw [hother j hj] at hgains
          exact ⟨hj'.congr (fun _ _ => rfl) rfl, hgains⟩
      · intro j hj
        rw [hold j (by omega), hother j (by omega)]
    · refine ⟨s.mppRamDbTree, i, true, ?_, Nat.le_refl _, by omega, fun hd => absurd hd (by simp),
        fun _ => hclash.imp_right fun hp => ⟨i, Nat.le_refl _, by omega, hp⟩, fun j h1 h2 => absurd h2 (Nat.not_lt.mpr h1), fun _ _ => rfl⟩
      simp only [heq, Option.bind_eq_bind, Option.bind_some, ne_eq, hne, not_false_eq_true, if_true]
      show some (s.setTree i (s.mppRamDbTree i), i, true) = _
      rw [setTree, Function.update_eq_self]
      rfl

/-- The loops that delete: the element is taken out of every tree, and the last one returns it. -/
theorem deleteFromTrees_spec (hkt : ∀ i, ComparesBy (kt.compare i) (key i)) (hnd : l.Nodup)
    (hp : p ∈ l) {n : Nat}
    (h : ∀ j, i ≤ j → j < i + n → Holds key s j (s.mppRamDbTree j) l ∧
      keyOf key s j (.element p) = keyOf key s j x) (pData : Option (RamDbPtr R)) :
    ∃ trees, s.deleteFromTrees kt x n i pData =
        some (s.withTrees trees, if n = 0 then pData else some (.element p)) ∧
      (∀ j, i ≤ j → j < i + n → Holds key s j (trees j) (l.erase p) ∧
        Loses ((s.mppRamDbTree j).moves (s.comparePtr kt) x) (s.mppRamDbTree j) p (trees j)) ∧
      ∀ j, j < i ∨ i + n ≤ j → trees j = s.mppRamDbTree j := by
  induction n generalizing i s pData with
  | zero => exact ⟨s.mppRamDbTree, rfl, fun j h1 h2 => absurd h2 (Nat.not_lt.mpr h1), fun _ _ => rfl⟩
  | succ n ih =>
    obtain ⟨hholds, hkey⟩ := h i (Nat.le_refl _) (by omega)
    obtain ⟨t', heq, hholds'⟩ := hholds.delete hkt hnd hp hkey
    have hother : ∀ j, j ≠ i → (s.setTree i t').mppRamDbTree j = s.mppRamDbTree j :=
      fun j hj => Function.update_of_ne hj _ _
    obtain ⟨trees, hrec, hnew, hold⟩ :=
      ih (s := s.setTree i t') (i := i + 1) (fun j h1 h2 => by
        rw [hother j (by omega)]
        obtain ⟨hj, hjkey⟩ := h j (by omega) (by omega)
        exact ⟨hj.congr (fun _ _ => rfl) rfl, hjkey⟩) (some (.element p))
    refine ⟨trees, ?_, ?_, ?_⟩
    · rw [deleteFromTrees, heq]
      simp only [Option.bind_eq_bind, Option.bind_some, hrec]
      split <;> rfl
    · intro j h1 h2
      by_cases hj : j = i
      · subst hj
        have hself : trees j = t' := (hold j (Or.inl (by omega))).trans (Function.update_self _ _ _)
        rw [hself]
        exact hholds'
      · obtain ⟨hj', hloses⟩ := hnew j (by omega) (by omega)
        rw [hother j hj] at hloses
        exact ⟨hj'.congr (fun _ _ => rfl) rfl, hloses⟩
    · intro j hj
      rw [hold j (by omega), hother j (by omega)]

/-- The loops that search always come to an end. -/
theorem searchTrees_returns (hkt : ∀ i, ComparesBy (kt.compare i) (key i)) (go : Option Nat → Bool)
    (x : RamDbPtr R) {n : Nat} (h : ∀ j, i ≤ j → j < i + n → Holds key s j (s.mppRamDbTree j) l)
    (pElement : Option Nat) : ∃ res, s.searchTrees kt go x n i pElement = some res := by
  induction n generalizing i pElement with
  | zero => exact ⟨_, rfl⟩
  | succ n ih =>
    have hrec := ih (i := i + 1) fun j h1 h2 => h j (by omega) (by omega)
    rw [searchTrees]
    rcases (h i (Nat.le_refl _) (by omega)).search hkt x with ⟨q, p, heq, -⟩ | ⟨heq, -⟩
    · rw [heq]
      by_cases hgo : go (some q)
      · simpa [hgo] using hrec (some q)
      · exact ⟨(i, some q), by simp [hgo]⟩
    · rw [heq]
      by_cases hgo : go none
      · simpa [hgo] using hrec none
      · exact ⟨(i, none), by simp [hgo]⟩

/-- The loops that look for a record in every tree, when all of them find one. -/
theorem searchTrees_all (hkt : ∀ i, ComparesBy (kt.compare i) (key i)) {n stop : Nat}
    {q q' : Option Nat} (h : ∀ j, i ≤ j → j < i + n → Holds key s j (s.mppRamDbTree j) l)
    (heq : s.searchTrees kt Option.isSome x n i q = some (stop, q')) (hstop : stop = i + n) :
    (∀ j, i ≤ j → j < i + n → ∃ m p, (s.mppRamDbTree j).search (s.comparePtr kt) x .equal =
      some (some m) ∧ (s.mppRamDbTree j).data m = some (.element p) ∧ p ∈ l ∧
      keyOf key s j (.element p) = keyOf key s j x) ∧
    (0 < n → (s.mppRamDbTree (i + n - 1)).search (s.comparePtr kt) x .equal = some q') := by
  induction n generalizing i q with
  | zero => exact ⟨fun j h1 h2 => absurd h2 (Nat.not_lt.mpr h1), fun h0 => absurd h0 (by omega)⟩
  | succ n ih =>
    rw [searchTrees] at heq
    rcases (h i (Nat.le_refl _) (by omega)).search hkt x with
      ⟨m, p, hsearch, hdata, hp, hkey⟩ | ⟨hsearch, -⟩
    · simp only [hsearch, Option.bind_eq_bind, Option.bind_some, Option.isSome_some, if_true] at heq
      obtain ⟨hall, hlast⟩ := ih (fun j h1 h2 => h j (by omega) (by omega)) heq (by omega)
      refine ⟨fun j h1 h2 => ?_, fun _ => ?_⟩
      · by_cases hj : j = i
        · subst hj
          exact ⟨m, p, hsearch, hdata, hp, hkey⟩
        · exact hall j (by omega) (by omega)
      · by_cases hn : 0 < n
        · rw [← hlast hn]
          congr 2
          omega
        · obtain rfl : n = 0 := by omega
          simp only [searchTrees, Option.some.injEq, Prod.mk.injEq] at heq
          rw [← heq.2, ← hsearch]
          rfl
    · simp only [hsearch, Option.bind_eq_bind, Option.bind_some, Option.isSome_none,
        Bool.false_eq_true, if_false, Option.pure_def, Option.some.injEq, Prod.mk.injEq] at heq
      omega

/-- The loops that look for a record in every tree, when none of them finds one. -/
theorem searchTrees_none (hkt : ∀ i, ComparesBy (kt.compare i) (key i)) {n stop : Nat}
    {q q' : Option Nat} (h : ∀ j, i ≤ j → j < i + n → Holds key s j (s.mppRamDbTree j) l)
    (heq : s.searchTrees kt Option.isNone x n i q = some (stop, q')) (hstop : stop = i + n) :
    ∀ j, i ≤ j → j < i + n → ∀ p ∈ l, keyOf key s j (.element p) ≠ keyOf key s j x := by
  induction n generalizing i q with
  | zero =>
    intro j h1 h2
    exact absurd h2 (Nat.not_lt.mpr h1)
  | succ n ih =>
    rw [searchTrees] at heq
    rcases (h i (Nat.le_refl _) (by omega)).search hkt x with ⟨m, p, hsearch, -⟩ | ⟨hsearch, hnew⟩
    · simp only [hsearch, Option.bind_eq_bind, Option.bind_some, Option.isNone_some,
        Bool.false_eq_true, if_false, Option.pure_def, Option.some.injEq, Prod.mk.injEq] at heq
      omega
    · simp only [hsearch, Option.bind_eq_bind, Option.bind_some, Option.isNone_none, if_true] at heq
      intro j h1 h2
      by_cases hj : j = i
      · subst hj
        exact hnew
      · exact ih (fun j h1 h2 => h j (by omega) (by omega)) heq (by omega) j (by omega) (by omega)

end BofStd.RamDb
