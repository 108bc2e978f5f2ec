import BofStd.Proofs.RamDbTreeProofs
import BofStd.RamDbSpec

/-!
# `BofRamDb`: the indexes agree

`DbRel` says that all the trees point to the elements `slots` and that `free` are the free elements.
`InsertElement` always keeps it. `DeleteElement` and `UpdateElement` look the record up in each index by
itself; when the indexes find different records, each loses another one. `HitsOneRecord` excludes this,
and the last run shows it.
-/

namespace BofStd.RamDb

open AvlTree Linked Machine

variable {R : Type} {K : Nat → Type} [∀ i, LinearOrder (K i)] {kt : RamDbKeyType R}
  {key : ∀ i, R → K i} {s s' : RamDb R} {p : Nat} {slots free : List Nat}

/-- A link of the list of free elements. -/
def link (n : Nat) : Option Nat := if n = 0xFFFFFFFF then none else some n

/-- All the trees point to the elements `slots`, and the others are the free ones. -/
structure DbRel (key : ∀ i, R → K i) (s : RamDb R) (slots free : List Nat) : Prop where
  trees : ∀ j < s.mNbIndex_U32, Holds key s j (s.mppRamDbTree j) slots
  chain : Chain (fun p => link (s.mpRamDbFreeElementList_U32 p)) (link s.mNextRamDbFreeElement_U32) free
  pool : (slots ++ free).Perm (List.range s.mNbMaxElement_U32)
  count : s.mNbRecord_U32 = slots.length
  pos : 0 < s.mNbMaxElement_U32
  lt : s.mNbMaxElement_U32 < 4294967296
  nbIndex : 0 < s.mNbIndex_U32

/-! ## The state -/

theorem DbRel.nodup (h : DbRel key s slots free) : (slots ++ free).Nodup :=
  h.pool.nodup_iff.mpr List.nodup_range

theorem DbRel.length (h : DbRel key s slots free) :
    slots.length + free.length = s.mNbMaxElement_U32 := by
  have hlen := h.pool.length_eq
  rw [List.length_append, List.length_range] at hlen
  exact hlen

theorem DbRel.lt_of_mem (h : DbRel key s slots free) (hp : p ∈ slots) : p < s.mNbMaxElement_U32 := by
  have hmem := h.pool.mem_iff.mp (List.mem_append_left free hp)
  rwa [List.mem_range] at hmem

theorem DbRel.slotSet_eq (h : DbRel key s slots free) {i : Nat} (hi : i < s.mNbIndex_U32) :
    s.slotSet i = slots.toFinset := by
  obtain ⟨T, F, hw, hperm⟩ := (h.trees i hi).tree
  have hwalk := hw.tree.walk_eq hw.height_lt
  have hrec : T.inorder.filterMap (fun n => position n.2) = (records T).filterMap position := by
    rw [records, List.filterMap_map]
    rfl
  have hslots : (slots.map RamDbPtr.element).filterMap (position (R := R)) = slots := by
    rw [List.filterMap_map]
    exact List.filterMap_some
  rw [slotSet, hwalk, hrec]
  refine List.toFinset_eq_of_perm _ _ ?_
  have hfilter := hperm.filterMap position
  rw [hslots] at hfilter
  exact hfilter

theorem freeSlots_eq {fuel n : Nat}
    (h : Chain (fun p => link (s.mpRamDbFreeElementList_U32 p)) (link n) free)
    (hfuel : free.length < fuel) : s.freeSlots fuel n = free := by
  induction free generalizing fuel n with
  | nil =>
    obtain ⟨fuel, rfl⟩ := Nat.exists_eq_succ_of_ne_zero (Nat.ne_of_gt hfuel)
    rw [freeSlots, if_pos]
    by_contra hne
    have hnone : link n = none := h
    rw [link, if_neg hne] at hnone
    exact Option.some_ne_none n hnone
  | cons p free ih =>
    obtain ⟨fuel, rfl⟩ := Nat.exists_eq_succ_of_ne_zero (Nat.ne_of_gt (Nat.zero_lt_of_lt hfuel))
    obtain ⟨hp, htail⟩ := h
    have hne : n ≠ 0xFFFFFFFF := by
      rintro rfl
      exact Option.some_ne_none p hp.symm
    rw [link, if_neg hne] at hp
    obtain rfl : n = p := Option.some.inj hp
    rw [List.length_cons] at hfuel
    rw [freeSlots, if_neg hne, ih htail (by omega)]

theorem DbRel.agree (h : DbRel key s slots free) : IndexesAgree s := by
  have hlen := h.length
  have hnd := h.nodup
  rw [List.nodup_append'] at hnd
  have h0 := h.slotSet_eq h.nbIndex
  have hfree : s.freeSet = free.toFinset := by
    rw [freeSet, freeSlots_eq h.chain (by omega)]
  refine ⟨fun i hi => ?_, ?_, ?_, ?_⟩
  · rw [h.slotSet_eq hi, h0]
  · rw [h0, hfree, List.disjoint_toFinset_iff_disjoint]
    exact hnd.2.2
  · rw [h0, hfree, ← List.toFinset_append, List.toFinset_eq_of_perm _ _ h.pool]
    ext i
    simp
  · rw [h0, List.toFinset_card_of_nodup hnd.1, h.count]

/-- The list of all the elements as it is linked at first. -/
theorem chain_freeElementList {N : Nat} (hN : 0 < N) (hlt : N < 4294967296)
    (hlist : s.mpRamDbFreeElementList_U32 = freeElementList N) :
    Chain (fun p => link (s.mpRamDbFreeElementList_U32 p)) (link 0) (List.range N) := by
  rw [List.range_eq_range']
  have hchain := Chain.range' (fun p => link (s.mpRamDbFreeElementList_U32 p)) (i := 0) (n := N)
    (fun k _ hk => by
      simp only [hlist, freeElementList]
      by_cases hlast : k = N - 1
      · rw [if_pos hlast, if_neg (by omega)]
        rfl
      · rw [if_neg hlast, if_pos (by omega), link, if_neg (by omega)])
  rw [if_pos hN] at hchain
  exact hchain

theorem dbRel_create {N nbIndex : Nat} (hN : 0 < N) (hlt : N < 4294967296) (hindex : 0 < nbIndex)
    (pElement : Nat → R) : DbRel key (create N nbIndex pElement) [] (List.range N) :=
  ⟨fun j _ => ⟨⟨_, _, wellFormed_create hN j, List.Perm.nil⟩, rfl, rfl⟩,
    chain_freeElementList hN hlt rfl, List.Perm.refl _, rfl, hN, hlt, hindex⟩

theorem DbRel.clear (h : DbRel key s slots free) :
    DbRel key s.clearDbAndReleaseCursor [] (List.range s.mNbMaxElement_U32) := by
  refine ⟨fun j hj => ?_, chain_freeElementList h.pos h.lt rfl, List.Perm.refl _, rfl, h.pos, h.lt,
    h.nbIndex⟩
  have htree := h.trees j hj
  have hpos : 0 < (s.mppRamDbTree j).mNbMaxElement_U32 := by
    rw [htree.nbMax]
    exact h.pos
  exact ⟨⟨_, _, WellFormed.clear hpos, List.Perm.nil⟩, htree.index, htree.nbMax⟩

/-- The cursors do not matter. -/
theorem DbRel.withCursors (h : DbRel key s slots free) (cursors : Nat → RamDbCursor) (n : Nat) :
    DbRel key { s with mpCursorState_X := cursors, mNbFreeCursor_U32 := n } slots free :=
  ⟨fun j hj => (h.trees j hj).congr (fun _ _ => rfl) rfl, h.chain, h.pool, h.count, h.pos, h.lt,
    h.nbIndex⟩

theorem DbRel.setCursorElement (h : DbRel key s slots free) (cursor : Option Nat)
    (pElement : Option (Nat × Nat)) : DbRel key (s.setCursorElement cursor pElement) slots free := by
  cases cursor with
  | none => exact h
  | some c => exact h.withCursors _ _

/-! ## Inserting -/

/-- A record is written to an element, and the keys of the trees do not change. -/
theorem DbRel.setElement (h : DbRel key s slots free) {f : Nat} {x : R}
    (hkey : f ∈ slots → ∀ j < s.mNbIndex_U32, key j x = key j (s.mpElementList f)) :
    DbRel key (s.setElement f x) slots free := by
  refine ⟨fun j hj => (h.trees j hj).congr (fun p hp => ?_) rfl, h.chain, h.pool, h.count, h.pos, h.lt,
    h.nbIndex⟩
  show key j (Function.update s.mpElementList f x p) = _
  by_cases hpf : p = f
  · subst hpf
    rw [Function.update_self]
    exact hkey hp j hj
  · rw [Function.update_of_ne hpf]

/-- The first free element is put into all the trees. -/
theorem DbRel.takeElement {f : Nat} (h : DbRel key s slots (f :: free))
    {trees : Nat → AvlTree (RamDbPtr R)}
    (htrees : ∀ j < s.mNbIndex_U32, Holds key s j (trees j) (f :: slots)) :
    DbRel key ((s.withTrees trees).takeElement f) (f :: slots) free := by
  have hlen := h.length
  rw [List.length_cons] at hlen
  have hlt := h.lt
  refine ⟨fun j hj => (htrees j hj).congr (fun _ _ => rfl) rfl, h.chain.2, ?_, ?_, h.pos, h.lt,
    h.nbIndex⟩
  · exact List.perm_middle.symm.trans h.pool
  · show u32 (s.mNbRecord_U32 + 1) = slots.length + 1
    rw [h.count, u32_of_lt (by omega)]

/-- An element is taken out of all the trees. -/
theorem DbRel.giveElement (h : DbRel key s slots free) (hp : p ∈ slots)
    {trees : Nat → AvlTree (RamDbPtr R)}
    (htrees : ∀ j < s.mNbIndex_U32, Holds key s j (trees j) (slots.erase p)) :
    DbRel key ((s.withTrees trees).giveElement p) (slots.erase p) (p :: free) := by
  have hnd := h.nodup
  rw [List.nodup_append'] at hnd
  obtain ⟨-, -, hdis⟩ := hnd
  have hpos := List.length_pos_of_mem hp
  have hperm := List.perm_cons_erase hp
  have hpN := h.lt_of_mem hp
  have hlt := h.lt
  refine ⟨fun j hj => (htrees j hj).congr (fun _ _ => rfl) rfl, ?_, ?_, ?_, h.pos, h.lt, h.nbIndex⟩
  · have hlink : link p = some p := if_neg (by omega)
    show Chain _ (link p) (p :: free)
    rw [hlink]
    refine h.chain.push ?_ fun q hq => ?_
    · show link (Function.update s.mpRamDbFreeElementList_U32 p s.mNextRamDbFreeElement_U32 p) = _
      rw [Function.update_self]
    · show link (Function.update s.mpRamDbFreeElementList_U32 p s.mNextRamDbFreeElement_U32 q) = _
      have hqp : q ≠ p := fun heq => hdis hp (heq ▸ hq)
      rw [Function.update_of_ne hqp]
  · refine List.Perm.trans ?_ h.pool
    exact List.perm_middle.trans (hperm.symm.append_right free)
  · show u32Sub s.mNbRecord_U32 1 = (slots.erase p).length
    rw [h.count, u32Sub_of_le hpos, List.length_erase_of_mem hp]

/-- The cursors and the number of the indexes are as they were. -/
structure SameCursors (s s' : RamDb R) : Prop where
  cursors : s'.mpCursorState_X = s.mpCursorState_X
  nbIndex : s'.mNbIndex_U32 = s.mNbIndex_U32

/-- The element `f` has got the record and has been put into all the trees. -/
structure Adds (s : RamDb R) (f : Nat) (x : R) (s' : RamDb R) : Prop extends SameCursors s s' where
  elements : s'.mpElementList = Function.update s.mpElementList f x
  trees : ∀ j < s.mNbIndex_U32, Gains (s.mppRamDbTree j) f (s'.mppRamDbTree j)

/-- The element `f` has got the record, has been put into some of the trees and taken out again. -/
structure Undoes (kt : RamDbKeyType R) (s : RamDb R) (f : Nat) (x : R) (s' : RamDb R) : Prop
    extends SameCursors s s' where
  elements : s'.mpElementList = Function.update s.mpElementList f x
  nodes : ∀ j < s.mNbIndex_U32, ∀ n ∈ (s.mppRamDbTree j).nodes,
    s.insertMoves kt x (j, n.1) = false → n.2 ≠ .element f → n ∈ (s'.mppRamDbTree j).nodes

/-- What `InsertElement` of the record `x` does. -/
inductive InsertOutcome (kt : RamDbKeyType R) (key : ∀ i, R → K i) (s : RamDb R)
    (slots free : List Nat) (cursor : Option Nat) (x : R) : RamDb R → BofErr → Prop
  | refused (err : BofErr) (hne : err ≠ .noError) (hwhy : s.isOpen cursor = false ∨ free = []) :
    InsertOutcome kt key s slots free cursor x s err
  | undone {s' : RamDb R} (f : Nat) (hf : f ∉ slots) (hopen : s.isOpen cursor = true)
    (h : DbRel key s' slots free) (hs : Undoes kt s f x s')
    (hclash : ∃ j < s.mNbIndex_U32, ∃ p ∈ slots, key j (s.mpElementList p) = key j x) :
    InsertOutcome kt key s slots free cursor x s' .duplicate
  | added {s' : RamDb R} (f : Nat) (rest : List Nat) (hfree : free = f :: rest)
    (h : DbRel key s' (f :: slots) rest) (hs : Adds s f x s') :
    InsertOutcome kt key s slots free cursor x s' .noError

/-- The first of the free elements. -/
theorem DbRel.next_eq {f : Nat} (h : DbRel key s slots (f :: free)) :
    s.mNextRamDbFreeElement_U32 = f ∧ f ≠ 0xFFFFFFFF := by
  obtain ⟨hlink, -⟩ := h.chain
  unfold link at hlink
  split at hlink
  · exact absurd hlink (by simp)
  · rename_i hne
    obtain rfl := Option.some.inj hlink
    exact ⟨rfl, hne⟩

/-- The element `f` is free. -/
theorem DbRel.insertFree (hkt : ∀ i, ComparesBy (kt.compare i) (key i)) {f : Nat} {cursor : Option Nat}
    (h : DbRel key s slots (f :: free)) (hopen : s.isOpen cursor = true) (x : R) :
    ∃ s' err, s.insertFree kt f x = some (s', err) ∧
      InsertOutcome kt key s slots (f :: free) cursor x s' err := by
  have hnd := h.nodup
  rw [List.nodup_append', List.disjoint_cons_right] at hnd
  obtain ⟨hnds, -, hfs, -⟩ := hnd
  have hcons : (f :: slots).Nodup := List.nodup_cons.mpr ⟨hfs, hnds⟩
  obtain ⟨hnext, hne⟩ := h.next_eq
  have hlen := h.length
  rw [List.length_cons] at hlen
  -- the record is written to a free element, so no key in a tree changes
  have hset : DbRel key (s.setElement f x) slots (f :: free) :=
    h.setElement fun hmem => absurd hmem hfs
  obtain ⟨trees, stop, duplicate, heq, -, hle, hdup, hclash, hnew, hold⟩ :=
    insertInTrees_spec hkt hset.lt f (i := 0) (n := s.mNbIndex_U32)
      fun j _ hj => hset.trees j (show j < s.mNbIndex_U32 by omega)
  unfold RamDb.insertFree
  have hnb : (s.setElement f x).mNbIndex_U32 = s.mNbIndex_U32 := rfl
  simp only [hnb, heq, Option.bind_eq_bind, Option.bind_some]
  cases duplicate with
  | false =>
    have hstop := hdup rfl
    refine ⟨_, _, rfl, .added f free rfl (hset.takeElement fun j hj => ?_) ⟨⟨rfl, rfl⟩, rfl, ?_⟩⟩
    · exact (hnew j (Nat.zero_le j) (by rw [hnb] at hj; omega)).1
    · intro j hj
      exact (hnew j (Nat.zero_le j) (by omega)).2
  | true =>
    -- the trees before the one that has the key get back what they held
    obtain ⟨trees', heq', hnew', hold'⟩ := deleteFromTrees_spec (x := .element f) (p := f)
      (s := (s.setElement f x).withTrees trees) (i := 0) (n := stop) hkt hcons List.mem_cons_self
      (fun j h1 h2 => ⟨(hnew j h1 (by omega)).1.congr (fun _ _ => rfl) rfl, rfl⟩) none
    simp only [heq', if_true, Option.bind_some]
    rw [List.erase_cons_head] at hnew'
    have hkeep : ∀ j, stop ≤ j → trees' j = s.mppRamDbTree j := by
      intro j hj
      exact (hold' j (Or.inr (by omega))).trans (hold j (Or.inr (by omega)))
    refine ⟨_, _, rfl, .undone f hfs hopen ⟨fun j hj => ?_, hset.chain, hset.pool, hset.count, hset.pos,
      hset.lt, hset.nbIndex⟩ ⟨⟨rfl, rfl⟩, rfl, ?_⟩ ?_⟩
    · by_cases hjs : j < stop
      · exact (hnew' j (Nat.zero_le j) (by omega)).1.congr (fun _ _ => rfl) rfl
      · show Holds key _ j (trees' j) slots
        rw [hkeep j (Nat.le_of_not_lt hjs)]
        exact (hset.trees j hj).congr (fun _ _ => rfl) rfl
    · intro j hj n hn hmoves hnf
      show n ∈ (trees' j).nodes
      by_cases hjs : j < stop
      · have hmoves' : (trees j).moves (((s.setElement f x).withTrees trees).comparePtr kt)
            (.element f) n.1 = false := by
          simpa [insertMoves, hnext, hne, heq, hjs, withTrees] using hmoves
        exact (hnew' j (Nat.zero_le j) (by omega)).2.kept n
          ((hnew j (Nat.zero_le j) hjs).2.kept n hn) hmoves' hnf
      · rw [hkeep j (Nat.le_of_not_lt hjs)]
        exact hn
    · rcases hclash rfl with hfull | ⟨j, -, hj, p, hp, hkey⟩
      · have hN : (s.setElement f x).mNbMaxElement_U32 = s.mNbMaxElement_U32 := rfl
        omega
      · refine ⟨j, by omega, p, hp, ?_⟩
        have hpf : p ≠ f := fun heq => hfs (heq ▸ hp)
        have hp' : (s.setElement f x).mpElementList p = s.mpElementList p :=
          Function.update_of_ne hpf _ _
        have hf' : (s.setElement f x).mpElementList f = x := Function.update_self _ _ _
        rw [← hp']
        exact hkey.trans (congrArg (key j) hf')

/-- Without the record the state is left as it is. -/
theorem insertElement_none (cursor : Option Nat) :
    s.insertElement kt cursor none = some (s, if s.isOpen cursor then .einval else .cursor) := by
  unfold RamDb.insertElement
  by_cases hopen : s.isOpen cursor = true
  · rw [if_pos hopen, if_pos hopen]
  · rw [if_neg hopen, if_neg hopen]

theorem DbRel.insertElement (hkt : ∀ i, ComparesBy (kt.compare i) (key i))
    (h : DbRel key s slots free) (cursor : Option Nat) (x : R) :
    ∃ s' err, s.insertElement kt cursor (some x) = some (s', err) ∧
      InsertOutcome kt key s slots free cursor x s' err := by
  unfold RamDb.insertElement
  by_cases hopen : s.isOpen cursor = true
  · rw [if_pos hopen]
    dsimp only
    by_cases hfull : s.mNextRamDbFreeElement_U32 ≠ 0xFFFFFFFF
    · rw [if_pos hfull]
      have hchain := h.chain
      rw [link, if_neg hfull] at hchain
      obtain ⟨rest, rfl, -⟩ := hchain.pop
      exact h.insertFree hkt hopen x
    · rw [if_neg hfull]
      have hnil : free = [] := by
        cases free with
        | nil => rfl
        | cons f free =>
          obtain ⟨hnext, hne⟩ := h.next_eq
          exact absurd (hnext ▸ hne) hfull
      exact ⟨s, _, rfl, .refused _ (by simp) (Or.inr hnil)⟩
  · rw [if_neg hopen]
    exact ⟨s, _, rfl, .refused _ (by simp) (Or.inl (Bool.eq_false_iff.mpr hopen))⟩

/-- A record with new keys is always inserted when an element is free. -/
theorem InsertOutcome.adds {f : Nat} {cursor : Option Nat} {x : R} {err : BofErr}
    (ho : InsertOutcome kt key s slots (f :: free) cursor x s' err) (hopen : s.isOpen cursor = true)
    (hnew : ∀ j < s.mNbIndex_U32, ∀ p ∈ slots, key j (s.mpElementList p) ≠ key j x) :
    err = .noError ∧ DbRel key s' (f :: slots) free ∧ Adds s f x s' := by
  cases ho with
  | refused err hne hwhy =>
    rcases hwhy with hclosed | hnil
    · rw [hopen] at hclosed
      exact absurd hclosed (by simp)
    · exact absurd hnil (by simp)
  | undone g hf hopen' h hs hclash =>
    obtain ⟨j, hj, p, hp, hkey⟩ := hclash
    exact absurd hkey (hnew j hj p hp)
  | added g rest hfree h hs =>
    obtain ⟨rfl, rfl⟩ := List.cons.inj hfree
    exact ⟨rfl, h, hs⟩

/-- Whatever `InsertElement` does, the indexes agree after it. -/
theorem InsertOutcome.dbRel {cursor : Option Nat} {x : R} {err : BofErr}
    (ho : InsertOutcome kt key s slots free cursor x s' err) (h : DbRel key s slots free) :
    ∃ slots' free', DbRel key s' slots' free' := by
  cases ho with
  | refused => exact ⟨slots, free, h⟩
  | undone f hf hopen h' hs hclash => exact ⟨slots, free, h'⟩
  | added f rest hfree h' hs => exact ⟨f :: slots, rest, h'⟩

/-! ## Deleting -/

/-- The record that all the indexes find for `x`, if they find one each. -/
theorem DbRel.found (hkt : ∀ i, ComparesBy (kt.compare i) (key i)) (h : DbRel key s slots free) {x : R}
    (hone : FindsOneRecord kt s x) {q : Option Nat}
    (heq : s.searchTrees kt Option.isSome (.argument x) s.mNbIndex_U32 0 none =
      some (s.mNbIndex_U32, q)) :
    ∃ p m, p ∈ slots ∧ q = some m ∧
      (s.mppRamDbTree (s.mNbIndex_U32 - 1)).data m = some (.element p) ∧
      ∀ j < s.mNbIndex_U32, keyOf key s j (.element p) = key j x := by
  obtain ⟨hall, hlast⟩ := searchTrees_all hkt (l := slots) (fun j _ hj => h.trees j (by omega)) heq
    (Nat.zero_add _).symm
  have hfound : ∀ j < s.mNbIndex_U32, ∃ m p, (s.mppRamDbTree j).search (s.comparePtr kt) (.argument x)
      .equal = some (some m) ∧ (s.mppRamDbTree j).data m = some (.element p) ∧ p ∈ slots ∧
      keyOf key s j (.element p) = key j x ∧ s.foundSlot kt j x = some p := by
    intro j hj
    obtain ⟨m, p, hsearch, hdata, hp, hkey⟩ := hall j (Nat.zero_le _) (by omega)
    refine ⟨m, p, hsearch, hdata, hp, hkey, ?_⟩
    simp [foundSlot, hsearch, hdata, position]
  have hsame := hone fun j hj => by
    obtain ⟨m, p, -, -, -, -, hslot⟩ := hfound j hj
    rw [hslot]
    exact Option.some_ne_none p
  have hpos := h.nbIndex
  obtain ⟨-, p, -, -, hp, -, hslot⟩ := hfound 0 hpos
  have hkeys : ∀ j < s.mNbIndex_U32, ∃ m, (s.mppRamDbTree j).search (s.comparePtr kt) (.argument x)
      .equal = some (some m) ∧ (s.mppRamDbTree j).data m = some (.element p) ∧
      keyOf key s j (.element p) = key j x := by
    intro j hj
    obtain ⟨m, p', hsearch, hdata, -, hkey, hslot'⟩ := hfound j hj
    have hpp : some p' = some p := by rw [← hslot', hsame j hj, hslot]
    rw [Option.some.inj hpp] at hdata hkey
    exact ⟨m, hsearch, hdata, hkey⟩
  obtain ⟨m, hsearch, hdata, -⟩ := hkeys (s.mNbIndex_U32 - 1) (by omega)
  refine ⟨p, m, hp, ?_, hdata, fun j hj => ?_⟩
  · have hq := hlast hpos
    rw [Nat.zero_add, hsearch] at hq
    exact (Option.some.inj hq).symm
  · obtain ⟨-, -, -, hkey⟩ := hkeys j hj
    exact hkey

/-- The element `p` has been taken out of all the trees by the key of `x`. -/
structure Drops (kt : RamDbKeyType R) (s : RamDb R) (x : R) (p : Nat) (s' : RamDb R) : Prop
    extends SameCursors s s' where
  elements : s'.mpElementList = s.mpElementList
  trees : ∀ j < s.mNbIndex_U32, Loses ((s.mppRamDbTree j).moves (s.comparePtr kt) (.argument x))
    (s.mppRamDbTree j) p (s'.mppRamDbTree j)

/-- What `DeleteElement` of the record for `x` does. -/
inductive DeleteOutcome (kt : RamDbKeyType R) (key : ∀ i, R → K i) (s : RamDb R)
    (slots free : List Nat) (x : R) : RamDb R → BofErr → Prop
  | notFound : DeleteOutcome kt key s slots free x s .notFound
  | deleted {s' : RamDb R} (p : Nat) (hp : p ∈ slots) (hfound : (s.foundNode kt x).isSome)
    (hkey : ∀ j < s.mNbIndex_U32, key j (s.mpElementList p) = key j x)
    (h : DbRel key s' (slots.erase p) (p :: free)) (hs : Drops kt s x p s') :
    DeleteOutcome kt key s slots free x s' .noError

theorem DbRel.deleteElement (hkt : ∀ i, ComparesBy (kt.compare i) (key i))
    (h : DbRel key s slots free) {x : R} (hone : FindsOneRecord kt s x) :
    ∃ s' err, s.deleteElement kt (some x) = some (s', err) ∧
      DeleteOutcome kt key s slots free x s' err := by
  unfold RamDb.deleteElement
  obtain ⟨⟨stop, q⟩, heq⟩ := searchTrees_returns hkt Option.isSome (.argument x) (i := 0)
    (n := s.mNbIndex_U32) (fun j _ hj => h.trees j (by omega)) none
  simp only [heq, Option.bind_eq_bind, Option.bind_some]
  by_cases hstop : stop = s.mNbIndex_U32
  · subst hstop
    obtain ⟨p, m, hp, rfl, -, hkey⟩ := h.found hkt hone heq
    have hnd := h.nodup
    rw [List.nodup_append'] at hnd
    obtain ⟨trees, heq', hnew, -⟩ := deleteFromTrees_spec (x := .argument x) hkt hnd.1 hp (i := 0)
      (n := s.mNbIndex_U32) (fun j _ hj => ⟨h.trees j (by omega), hkey j (by omega)⟩) none
    have hfree : (s.withTrees trees).freeElement (some (.element p)) =
        ((s.withTrees trees).giveElement p, .noError) := if_pos (h.lt_of_mem hp)
    rw [if_neg (Nat.ne_of_gt h.nbIndex)] at heq'
    simp only [if_true, heq', Option.bind_some, hfree]
    refine ⟨_, _, rfl, .deleted p hp ?_ hkey (h.giveElement hp fun j hj => ?_) ⟨⟨rfl, rfl⟩, rfl, ?_⟩⟩
    · simp [foundNode, heq]
    · exact (hnew j (Nat.zero_le j) (by omega)).1
    · intro j hj
      exact (hnew j (Nat.zero_le j) (by omega)).2
  · rw [if_neg hstop]
    exact ⟨s, _, rfl, .notFound⟩

/-- Whatever `DeleteElement` does, the indexes agree after it. -/
theorem DeleteOutcome.dbRel {x : R} {err : BofErr}
    (ho : DeleteOutcome kt key s slots free x s' err) (h : DbRel key s slots free) :
    ∃ slots' free', DbRel key s' slots' free' := by
  cases ho with
  | notFound => exact ⟨slots, free, h⟩
  | deleted p hp hfound hkey h' hs => exact ⟨slots.erase p, p :: free, h'⟩

/-! ## Updating -/

/-- What `UpdateElement` of the record for `search` does. -/
inductive UpdateOutcome (kt : RamDbKeyType R) (key : ∀ i, R → K i) (s : RamDb R)
    (slots free : List Nat) (cursor : Option Nat) (search new : R) : RamDb R → Prop
  | unchanged : UpdateOutcome kt key s slots free cursor search new s
  | written (p m : Nat) (hcall : s.isOpen cursor = true ∧ kt.notEqual search new = true)
    (hp : p ∈ slots) (hfound : s.foundNode kt search = some (s.mNbIndex_U32 - 1, m))
    (hsame : sameKeys kt new search s.mNbIndex_U32 0 = true)
    (h : DbRel key (s.setElement p new) slots free) :
    UpdateOutcome kt key s slots free cursor search new
      ((s.setElement p new).setCursorElement cursor (some (s.mNbIndex_U32 - 1, m)))
  | replaced {s₁ s' : RamDb R} (p : Nat) (x : R)
    (hcall : s.isOpen cursor = true ∧ kt.notEqual search new = true) (hp : p ∈ slots)
    (hfound : (s.foundNode kt search).isSome)
    (hsame : sameKeys kt new search s.mNbIndex_U32 0 = false)
    (hx : x = new ∨ x = s.mpElementList p) (hs : Drops kt s search p s₁) (hs₁ : Adds s₁ p x s')
    (h : DbRel key s' (p :: slots.erase p) free) :
    UpdateOutcome kt key s slots free cursor search new s'

/-- What `UpdateElement` of the record for `search` does, with the error code. -/
inductive UpdateResult (kt : RamDbKeyType R) (key : ∀ i, R → K i) (s : RamDb R)
    (slots free : List Nat) (cursor : Option Nat) (search new : R) : RamDb R → BofErr → Prop
  | unchanged (err : BofErr)
    (hwhy : err = .noError → s.isOpen cursor = true ∧ kt.notEqual search new = false) :
    UpdateResult kt key s slots free cursor search new s err
  | written (p m : Nat) (hcall : s.isOpen cursor = true ∧ kt.notEqual search new = true)
    (hp : p ∈ slots) (hkey : ∀ j < s.mNbIndex_U32, key j (s.mpElementList p) = key j search)
    (hfound : s.foundNode kt search = some (s.mNbIndex_U32 - 1, m))
    (hsame : sameKeys kt new search s.mNbIndex_U32 0 = true)
    (h : DbRel key (s.setElement p new) slots free) :
    UpdateResult kt key s slots free cursor search new
      ((s.setElement p new).setCursorElement cursor (some (s.mNbIndex_U32 - 1, m))) .noError
  | replaced {s₁ s' : RamDb R} (p : Nat) (x : R) (err : BofErr)
    (hcall : s.isOpen cursor = true ∧ kt.notEqual search new = true) (hp : p ∈ slots)
    (hkey : ∀ j < s.mNbIndex_U32, key j (s.mpElementList p) = key j search)
    (hfound : (s.foundNode kt search).isSome)
    (hsame : sameKeys kt new search s.mNbIndex_U32 0 = false)
    (hx : x = new ∧ err = .noError ∨ x = s.mpElementList p ∧ err ≠ .noError) (hs : Drops kt s search p s₁)
    (hs₁ : Adds s₁ p x s') (h : DbRel key s' (p :: slots.erase p) free) :
    UpdateResult kt key s slots free cursor search new s' err

theorem UpdateResult.outcome {cursor : Option Nat} {search new : R} {err : BofErr}
    (h : UpdateResult kt key s slots free cursor search new s' err) :
    UpdateOutcome kt key s slots free cursor search new s' := by
  cases h with
  | unchanged => exact .unchanged
  | written p m hcall hp hkey hfound hsame h => exact .written p m hcall hp hfound hsame h
  | replaced p x err hcall hp hkey hfound hsame hx hs hs₁ h =>
    exact .replaced p x hcall hp hfound hsame (hx.imp And.left And.left) hs hs₁ h

theorem SameCursors.isOpen_eq (h : SameCursors s s') (cursor : Option Nat) :
    s'.isOpen cursor = s.isOpen cursor := by
  cases cursor with
  | none => rfl
  | some c => simp only [isOpen, h.cursors]

/-- The record of the element `p`, which all the indexes find for `search`, is replaced. -/
theorem DbRel.replaceElement (hkt : ∀ i, ComparesBy (kt.compare i) (key i))
    (h : DbRel key s slots free) {cursor : Option Nat} {search new : R}
    (hcall : s.isOpen cursor = true ∧ kt.notEqual search new = true)
    (hone : FindsOneRecord kt s search)
    (hsame : sameKeys kt new search s.mNbIndex_U32 0 = false) (hp : p ∈ slots)
    (hkey : ∀ j < s.mNbIndex_U32, key j (s.mpElementList p) = key j search) :
    ∃ s' err, s.replaceElement kt cursor search new (s.mpElementList p) = some (s', err) ∧
      UpdateResult kt key s slots free cursor search new s' err := by
  obtain ⟨s₁, err, heq, ho⟩ := h.deleteElement hkt hone
  unfold RamDb.replaceElement
  simp only [heq, Option.bind_eq_bind, Option.bind_some]
  cases ho with
  | notFound => exact ⟨s, _, rfl, .unchanged _ (by simp)⟩
  | deleted q hq hfound hkeyq h₁ hs =>
    obtain rfl : q = p := (h.trees 0 h.nbIndex).injective hq hp
      ((hkeyq 0 h.nbIndex).trans (hkey 0 h.nbIndex).symm)
    have hopen₁ : s₁.isOpen cursor = true := (hs.isOpen_eq cursor).trans hcall.1
    obtain ⟨⟨stop, m⟩, heq₁⟩ := searchTrees_returns hkt Option.isNone (.argument new) (i := 0)
      (n := s₁.mNbIndex_U32) (fun j _ hj => h₁.trees j (by omega)) none
    obtain ⟨s₂, err₂, heq₂, ho₂⟩ := h₁.insertElement hkt cursor new
    obtain ⟨s₃, err₃, heq₃, ho₃⟩ := h₁.insertElement hkt cursor (s.mpElementList q)
    simp only [if_true, heq₁, heq₂, heq₃, Option.bind_some]
    by_cases hstop : stop = s₁.mNbIndex_U32
    · -- no index finds the new record, so it is inserted
      have hnew := searchTrees_none hkt (fun j _ hj => h₁.trees j (by omega)) heq₁ (by omega)
      obtain ⟨rfl, h₂, hs₂⟩ := ho₂.adds hopen₁ fun j hj p hp => hnew j (Nat.zero_le j) (by omega) p hp
      rw [if_pos hstop]
      exact ⟨s₂, _, rfl, .replaced q new _ hcall hq hkeyq hfound hsame (Or.inl ⟨rfl, rfl⟩) hs hs₂ h₂⟩
    · -- the old record is inserted again, and no other one has its keys
      have hnd := h.nodup
      rw [List.nodup_append'] at hnd
      obtain ⟨rfl, h₃, hs₃⟩ := ho₃.adds hopen₁ fun j hj p hp hkeyp => by
        rw [hs.elements] at hkeyp
        rw [hs.nbIndex] at hj
        have hpq := (h.trees j hj).injective (List.mem_of_mem_erase hp) hq hkeyp
        rw [hpq] at hp
        exact hnd.1.not_mem_erase hp
      rw [if_neg hstop]
      exact ⟨s₃, _, rfl, .replaced q _ _ hcall hq hkeyq hfound hsame (Or.inr ⟨rfl, by simp⟩) hs hs₃ h₃⟩

/-- Records that compare as equal in every index have equal keys. -/
theorem key_eq_of_sameKeys (hkt : ∀ i, ComparesBy (kt.compare i) (key i)) {new search : R} {n i : Nat}
    (h : sameKeys kt new search n i = true) {j : Nat} (h1 : i ≤ j) (h2 : j < i + n) :
    key j search = key j new := by
  induction n generalizing i with
  | zero => omega
  | succ n ih =>
    rw [sameKeys, Bool.and_eq_true, decide_eq_true_eq] at h
    by_cases hj : j = i
    · subst hj
      have hcmp := h.1
      rw [hkt j new search] at hcmp
      by_contra hne
      rw [if_neg hne] at hcmp
      split at hcmp <;> exact absurd hcmp (by simp)
    · exact ih h.2 (by omega) (by omega)

/-- Without the two records the state is left as it is. -/
theorem updateElement_of_none (cursor : Option Nat) (pSearch : Option R) {pNew : Option R}
    (hnone : pSearch = none ∨ pNew = none) :
    s.updateElement kt cursor pSearch pNew =
      some (s, if s.isOpen cursor then .einval else .cursor) := by
  unfold RamDb.updateElement
  by_cases hopen : s.isOpen cursor = true
  · rw [if_pos hopen, if_pos hopen]
    rcases hnone with rfl | rfl
    · rfl
    · cases pSearch with
      | none => rfl
      | some search => rfl
  · rw [if_neg hopen, if_neg hopen]

theorem DbRel.updateResult (hkt : ∀ i, ComparesBy (kt.compare i) (key i))
    (h : DbRel key s slots free) (cursor : Option Nat) {search new : R}
    (hone : s.isOpen cursor → kt.notEqual search new → FindsOneRecord kt s search) :
    ∃ s' err, s.updateElement kt cursor (some search) (some new) = some (s', err) ∧
      UpdateResult kt key s slots free cursor search new s' err := by
  unfold RamDb.updateElement
  by_cases hopen : s.isOpen cursor = true
  · rw [if_pos hopen]
    dsimp only
    by_cases hne : kt.notEqual search new = true
    · rw [if_pos hne]
      obtain ⟨⟨stop, q⟩, heq⟩ := searchTrees_returns hkt Option.isSome (.argument search) (i := 0)
        (n := s.mNbIndex_U32) (fun j _ hj => h.trees j (by omega)) none
      simp only [heq, Option.bind_eq_bind, Option.bind_some]
      by_cases hstop : stop = s.mNbIndex_U32
      · subst hstop
        obtain ⟨p, m, hp, rfl, hdata, hkey⟩ := h.found hkt (hone hopen hne) heq
        simp only [if_true, Option.bind_some, hdata]
        by_cases hsame : sameKeys kt new search s.mNbIndex_U32 0 = true
        · have hset : DbRel key (s.setElement p new) slots free := by
            refine h.setElement fun _ j hj => ?_
            rw [← key_eq_of_sameKeys hkt hsame (Nat.zero_le j) (by omega)]
            exact (hkey j hj).symm
          have hover : s.overwriteElement cursor m (.element p) new =
              ((s.setElement p new).setCursorElement cursor (some (s.mNbIndex_U32 - 1, m)), .noError) :=
            if_pos (h.lt_of_mem hp)
          rw [if_pos hsame, hover]
          exact ⟨_, _, rfl, .written p m ⟨hopen, hne⟩ hp hkey (by simp [foundNode, heq]) hsame hset⟩
        · rw [if_neg hsame]
          exact h.replaceElement hkt ⟨hopen, hne⟩ (hone hopen hne) (Bool.eq_false_iff.mpr hsame) hp hkey
      · rw [if_neg hstop]
        exact ⟨s, _, rfl, .unchanged _ (by simp)⟩
    · rw [if_neg hne]
      exact ⟨s, _, rfl, .unchanged _ fun _ => ⟨hopen, Bool.eq_false_iff.mpr hne⟩⟩
  · rw [if_neg hopen]
    exact ⟨s, _, rfl, .unchanged _ (by simp)⟩

theorem DbRel.updateElement (hkt : ∀ i, ComparesBy (kt.compare i) (key i))
    (h : DbRel key s slots free) (cursor : Option Nat) {search new : R}
    (hone : s.isOpen cursor → kt.notEqual search new → FindsOneRecord kt s search) :
    ∃ s' err, s.updateElement kt cursor (some search) (some new) = some (s', err) ∧
      UpdateOutcome kt key s slots free cursor search new s' := by
  obtain ⟨s', err, heq, hres⟩ := h.updateResult hkt cursor hone
  exact ⟨s', err, heq, hres.outcome⟩

/-- Whatever `UpdateElement` does, the indexes agree after it. -/
theorem UpdateOutcome.dbRel {cursor : Option Nat} {search new : R}
    (ho : UpdateOutcome kt key s slots free cursor search new s') (h : DbRel key s slots free) :
    ∃ slots' free', DbRel key s' slots' free' := by
  cases ho with
  | unchanged => exact ⟨slots, free, h⟩
  | written p m hcall hp hfound hsame h' => exact ⟨slots, free, h'.setCursorElement cursor _⟩
  | replaced p x hcall hp hfound hsame hx hs hs₁ h' => exact ⟨p :: slots.erase p, free, h'⟩

/-! ## Runs -/

theorem DbRel.step (hkt : ∀ i, ComparesBy (kt.compare i) (key i)) (h : DbRel key s slots free)
    (op : Op R) (hop : HitsOneRecord kt s op) :
    (∃ slots' free', DbRel key (step kt s op).1 slots' free') ∧ (step kt s op).2 ≠ none := by
  have hreturn : ∀ res : Option (RamDb R × BofErr),
      (∃ s' err slots' free', res = some (s', err) ∧ DbRel key s' slots' free') →
      (∃ slots' free', DbRel key (s.returning res).1 slots' free') ∧ (s.returning res).2 ≠ none := by
    rintro res ⟨s', err, slots', free', rfl, h'⟩
    exact ⟨⟨slots', free', h'⟩, Option.some_ne_none _⟩
  match op with
  | .getCursor index pCursor =>
    refine ⟨⟨slots, free, ?_⟩, Option.some_ne_none _⟩
    show DbRel key (s.getCursor index pCursor).1 slots free
    unfold getCursor
    split_ifs
    · split
      · exact h.withCursors _ _
      · exact h
    all_goals exact h
  | .freeCursor pCursor =>
    refine hreturn (some (s.freeCursor pCursor)) ⟨_, _, slots, free, rfl, ?_⟩
    show DbRel key (s.freeCursor pCursor).1 slots free
    unfold freeCursor
    split
    · split_ifs
      · exact h.withCursors _ _
      · exact h
    · exact h
  | .insertElement cursor none =>
    exact hreturn _ ⟨s, _, slots, free, insertElement_none cursor, h⟩
  | .insertElement cursor (some x) =>
    obtain ⟨s', err, heq, ho⟩ := h.insertElement hkt cursor x
    obtain ⟨slots', free', h'⟩ := ho.dbRel h
    exact hreturn _ ⟨s', err, slots', free', heq, h'⟩
  | .deleteElement none => exact hreturn _ ⟨s, _, slots, free, rfl, h⟩
  | .deleteElement (some x) =>
    obtain ⟨s', err, heq, ho⟩ := h.deleteElement hkt hop
    obtain ⟨slots', free', h'⟩ := ho.dbRel h
    exact hreturn _ ⟨s', err, slots', free', heq, h'⟩
  | .updateElement cursor none pNew =>
    exact hreturn _ ⟨s, _, slots, free, updateElement_of_none cursor none (Or.inl rfl), h⟩
  | .updateElement cursor (some search) none =>
    exact hreturn _ ⟨s, _, slots, free, updateElement_of_none cursor (some search) (Or.inr rfl), h⟩
  | .updateElement cursor (some search) (some new) =>
    obtain ⟨s', err, heq, ho⟩ := h.updateElement hkt cursor hop
    obtain ⟨slots', free', h'⟩ := ho.dbRel h
    exact hreturn _ ⟨s', err, slots', free', heq, h'⟩
  | .clearDbAndReleaseCursor => exact ⟨⟨_, _, h.clear⟩, Option.some_ne_none _⟩

/-- The indexes of `BofRamDb` agree on every run whose calls delete and update records that are the same
in all of them. -/
theorem ramDb_keepsIndexes (kt : RamDbKeyType R) (key : ∀ i, R → K i) (nbMaxElement nbIndex : Nat)
    (pElement : Nat → R) (hkt : ∀ i, ComparesBy (kt.compare i) (key i)) (hpos : 0 < nbMaxElement)
    (hlt : nbMaxElement < 4294967296) (hindex : 0 < nbIndex) (ops : List (Op R))
    (hc : Meets (step kt) (HitsOneRecord kt) (create nbMaxElement nbIndex pElement) ops) :
    KeepsIndexes kt nbMaxElement nbIndex pElement ops := by
  have hcreate : ∃ slots free, DbRel key (create nbMaxElement nbIndex pElement) slots free :=
    ⟨_, _, dbRel_create hpos hlt hindex pElement⟩
  have hstep : ∀ s op, (∃ slots free, DbRel key s slots free) → HitsOneRecord kt s op →
      (∃ slots free, DbRel key (step kt s op).1 slots free) ∧ (step kt s op).2 ≠ none := by
    rintro s op ⟨slots, free, h⟩ hop
    exact h.step hkt op hop
  refine ⟨?_, ?_⟩
  · obtain ⟨slots, free, h⟩ := inv_run (fun s op h hop => (hstep s op h hop).1) hcreate hc
    exact h.agree
  · exact outputs_run (Q := fun out => out ≠ none) hstep hcreate hc

/-- Records of two numbers, each of which is the key of one index. -/
def twoKeys : RamDbKeyType (Nat × Nat) where
  compare i x y :=
    let key (z : Nat × Nat) : Nat := if i = 0 then z.1 else z.2
    if key y < key x then .less else if key y = key x then .equal else .greater
  notEqual x y := x ≠ y

/-- Three elements: a record is updated, an update is refused because of a duplicate, and a record is
deleted. -/
theorem keepsIndexes_three_elements :
    KeepsIndexes twoKeys 3 2 (fun _ => (0, 0))
      [.getCursor 0 true, .insertElement (some 0) (some (1, 1)), .insertElement (some 0) (some (2, 2)),
        .updateElement (some 0) (some (1, 1)) (some (3, 3)),
        .updateElement (some 0) (some (3, 3)) (some (4, 2)), .deleteElement (some (2, 2))] :=
  ramDb_keepsIndexes twoKeys (fun i z => if i = 0 then z.1 else z.2) 3 2 (fun _ => (0, 0))
    (fun _ _ _ => rfl) (by decide) (by decide) (by decide) _
    (by decide +kernel)

/-- Two indexes: the record to delete has the first key of one record and the second key of another
one, so each index loses another record. -/
theorem not_keepsIndexes_of_mixed_keys :
    ¬ KeepsIndexes twoKeys 3 2 (fun _ => (0, 0))
      [.getCursor 0 true, .insertElement (some 0) (some (1, 1)), .insertElement (some 0) (some (2, 2)),
        .deleteElement (some (1, 2))] :=
  fun h => absurd (h.agree.same 1 (by decide)) (by decide)

end BofStd.RamDb
