import BofStd.RamDbSpec
import BofStd.Proofs.RamDbCursorProofs

/-!
# `BofRamDb`: the writes are all-or-nothing

The records of an index are those of its elements, sorted by the key (`Holds.recordsOf`), so they are known
as soon as the elements are (`recordsOf_eq_of_perm`). What `InsertElement` and `UpdateElement` do to the
elements has been said by their outcomes.
-/

namespace BofStd.RamDb

open AvlTree BinaryTree Machine

variable {R : Type} {K : Nat → Type} [∀ i, LinearOrder (K i)] {kt : RamDbKeyType R}
  {key : ∀ i, R → K i} {s s' : RamDb R} {i p : Nat} {slots free : List Nat}

/-! ## The records of an index -/

theorem Holds.recordsOf (h : Holds key s i (s.mppRamDbTree i) slots) :
    (s.recordsOf i).Perm (slots.map s.mpElementList) ∧
      (s.recordsOf i).Pairwise fun x y => key i x < key i y := by
  obtain ⟨T, free, hw, hperm⟩ := h.tree
  have heq : s.recordsOf i = (records T).map s.deref := by
    rw [RamDb.recordsOf, hw.nodes_eq, records, List.map_map]
    rfl
  rw [heq]
  refine ⟨?_, List.pairwise_map.mpr hw.ascending⟩
  have hmap := hperm.map s.deref
  rw [List.map_map] at hmap
  exact hmap

/-- Two sequences in the order of one key that have the same records are the same. -/
theorem eq_of_perm_of_pairwise {l l' : List R} (hperm : l.Perm l')
    (h : l.Pairwise fun x y => key i x < key i y) (h' : l'.Pairwise fun x y => key i x < key i y) : l = l' :=
  hperm.eq_of_pairwise (fun _ _ _ _ hlt hgt => absurd hgt (not_lt_of_gt hlt)) h h'

theorem recordsOf_eq_of_perm {slots' : List Nat} (h : Holds key s i (s.mppRamDbTree i) slots)
    (h' : Holds key s' i (s'.mppRamDbTree i) slots')
    (hperm : (slots'.map s'.mpElementList).Perm (slots.map s.mpElementList)) :
    s'.recordsOf i = s.recordsOf i := by
  obtain ⟨hslots, hord⟩ := h.recordsOf
  obtain ⟨hslots', hord'⟩ := h'.recordsOf
  exact eq_of_perm_of_pairwise (hslots'.trans (hperm.trans hslots.symm)) hord' hord

theorem precedes_iff (hkt : ∀ i, ComparesBy (kt.compare i) (key i)) {x y : R} :
    Precedes kt i x y ↔ key i x < key i y := by
  unfold Precedes
  rw [hkt i y x]
  split
  · next hlt => exact iff_of_true rfl hlt
  · next hlt =>
    split
    · exact iff_of_false (by decide) hlt
    · exact iff_of_false (by decide) hlt

/-- One of the elements has got another record. -/
theorem replaces_of_perm (hkt : ∀ i, ComparesBy (kt.compare i) (key i)) {l l' m : List R} {old new : R}
    (hl : l.Perm (old :: m)) (hl' : l'.Perm (new :: m)) (h : l.Pairwise fun x y => key i x < key i y)
    (h' : l'.Pairwise fun x y => key i x < key i y) : Replaces kt i l l' old new := by
  obtain ⟨l₁, l₂, rfl⟩ := List.append_of_mem (hl.mem_iff.mpr List.mem_cons_self)
  obtain ⟨l₁', l₂', rfl⟩ := List.append_of_mem (hl'.mem_iff.mpr List.mem_cons_self)
  have hm : (l₁ ++ l₂).Perm m := (List.perm_middle.symm.trans hl).cons_inv
  have hm' : (l₁' ++ l₂').Perm m := (List.perm_middle.symm.trans hl').cons_inv
  refine ⟨h'.imp fun hlt => (precedes_iff hkt).mpr hlt, l₁, l₂, l₁', l₂', rfl, rfl, ?_⟩
  refine eq_of_perm_of_pairwise (hm.trans hm'.symm) (h.sublist ?_) (h'.sublist ?_)
  · exact (List.Sublist.refl l₁).append (List.sublist_cons_self _ _)
  · exact (List.Sublist.refl l₁').append (List.sublist_cons_self _ _)

/-- If nothing has changed, the record has given way to itself. -/
theorem eq_of_replaces_self {l : List R} {old new : R} (h : Replaces kt i l l old new) : old = new := by
  obtain ⟨-, l₁, l₂, l₁', l₂', hl, hl', heq⟩ := h
  have hperm : (old :: (l₁ ++ l₂)).Perm (new :: (l₁ ++ l₂)) := by
    refine List.perm_middle.symm.trans ?_
    rw [← hl, hl', heq]
    exact List.perm_middle
  exact Multiset.cons_inj_left (↑(l₁ ++ l₂) : Multiset R) |>.mp (Multiset.coe_eq_coe.mpr hperm)

/-! ## Inserting -/

theorem DbRel.freeList_eq (h : DbRel key s slots free) : s.freeList = free := by
  have hlen := h.length
  exact freeSlots_eq h.chain (by omega)

/-- An index holds the key of `x` exactly if one of the elements does. -/
theorem DbRel.holdsKey_iff (hkt : ∀ i, ComparesBy (kt.compare i) (key i)) (h : DbRel key s slots free) (x : R) :
    s.HoldsKey kt x ↔ ∃ j < s.mNbIndex_U32, ∃ p ∈ slots, key j (s.mpElementList p) = key j x := by
  have hequal : ∀ j y, kt.compare j x y = .equal ↔ key j y = key j x := fun j y => by
    rw [hkt j x y]
    constructor
    · intro heq
      by_contra hne
      rw [if_neg hne] at heq
      split at heq <;> exact absurd heq (by decide)
    · intro heq
      rw [heq, if_neg (lt_irrefl _), if_pos rfl]
  constructor
  · rintro ⟨j, hj, y, hy, heq⟩
    obtain ⟨p, hp, rfl⟩ := List.mem_map.mp ((h.trees j hj).recordsOf.1.mem_iff.mp hy)
    exact ⟨j, hj, p, hp, (hequal j _).mp heq⟩
  · rintro ⟨j, hj, p, hp, heq⟩
    exact ⟨j, hj, s.mpElementList p, (h.trees j hj).recordsOf.1.mem_iff.mpr (List.mem_map_of_mem hp),
      (hequal j _).mpr heq⟩

theorem insertElement_closed {cursor : Option Nat} (hclosed : s.isOpen cursor = false) (pElement : Option R) :
    s.insertElement kt cursor pElement = some (s, .cursor) := by
  unfold RamDb.insertElement
  rw [hclosed]
  rfl

theorem insertElement_full {cursor : Option Nat} (hopen : s.isOpen cursor = true)
    (hfull : s.mNextRamDbFreeElement_U32 = 0xFFFFFFFF) (x : R) :
    s.insertElement kt cursor (some x) = some (s, .full) := by
  unfold RamDb.insertElement
  rw [if_pos hopen]
  exact if_neg (not_not.mpr hfull)

/-- A record that has been put into another element than a second one does not have its key. -/
theorem key_ne_of_adds {f : Nat} {rest : List Nat} {x : R} (h : DbRel key s slots (f :: rest))
    (h' : DbRel key s' (f :: slots) rest) (hs : Adds s f x s') {j : Nat} (hj : j < s.mNbIndex_U32) (hp : p ∈ slots) :
    key j (s.mpElementList p) ≠ key j x := by
  intro hkey
  have hnd := h.nodup
  rw [List.nodup_append', List.disjoint_cons_right] at hnd
  have hpf : p ≠ f := fun heq => hnd.2.2.1 (heq ▸ hp)
  have hp' : s'.mpElementList p = s.mpElementList p := by
    rw [hs.elements]
    exact Function.update_of_ne hpf _ _
  have hf' : s'.mpElementList f = x := by
    rw [hs.elements]
    exact Function.update_self _ _ _
  have htree := h'.trees j (by rw [hs.nbIndex]; exact hj)
  refine hpf (htree.injective (List.mem_cons_of_mem _ hp) List.mem_cons_self ?_)
  rw [hp', hf', hkey]

theorem Unchanged.refl : Unchanged s s := ⟨fun _ _ => rfl, rfl, rfl⟩

/-- What has been undone has left the records as they were. -/
theorem DbRel.unchanged {f : Nat} {x : R} (h : DbRel key s slots free) (h' : DbRel key s' slots free)
    (hf : f ∉ slots) (hs : Undoes kt s f x s') : Unchanged s s' := by
  refine ⟨fun j hj => ?_, h'.count.trans h.count.symm, h'.freeList_eq.trans h.freeList_eq.symm⟩
  refine recordsOf_eq_of_perm (h.trees j hj) (h'.trees j (by rw [hs.nbIndex]; exact hj)) (List.Perm.of_eq ?_)
  refine List.map_congr_left fun p hp => ?_
  rw [hs.elements]
  exact Function.update_of_ne (fun heq : p = f => hf (heq ▸ hp)) _ _

theorem DbRel.insertIsAtomic (hkt : ∀ i, ComparesBy (kt.compare i) (key i)) (h : DbRel key s slots free)
    (cursor : Option Nat) (pElement : Option R) : InsertIsAtomic kt s cursor pElement := by
  cases hopen : s.isOpen cursor with
  | false =>
    refine ⟨s, _, insertElement_closed hopen pElement, fun _ => Unchanged.refl, ?_⟩
    exact iff_of_false (by decide) fun hall => absurd (hopen.symm.trans hall.1) (by decide)
  | true =>
    cases pElement with
    | none =>
      refine ⟨s, _, insertElement_none cursor, fun _ => Unchanged.refl, ?_⟩
      rw [if_pos hopen]
      exact iff_of_false (by decide) fun ⟨_, _, x, hx, _⟩ => absurd hx (by simp)
    | some x =>
      cases free with
      | nil =>
        have hfull : s.mNextRamDbFreeElement_U32 = 0xFFFFFFFF := by
          have hchain : link s.mNextRamDbFreeElement_U32 = none := h.chain
          by_contra hne
          rw [link, if_neg hne] at hchain
          exact Option.some_ne_none _ hchain
        refine ⟨s, _, insertElement_full hopen hfull x, fun _ => Unchanged.refl, ?_⟩
        exact iff_of_false (by decide) fun hall => hall.2.1 h.freeList_eq
      | cons f rest =>
        obtain ⟨s', err, heq, ho⟩ := h.insertElement hkt cursor x
        refine ⟨s', err, heq, ?_⟩
        cases ho with
        | refused err hne hwhy =>
          rcases hwhy with hclosed | hnil
          · exact absurd (hopen.symm.trans hclosed) (by decide)
          · exact absurd hnil (by simp)
        | undone g hg hopen' h' hs hclash =>
          refine ⟨fun _ => h.unchanged h' hg hs, iff_of_true rfl ⟨hopen, ?_, x, rfl, ?_⟩⟩
          · rw [h.freeList_eq]
            exact List.cons_ne_nil f rest
          · exact (h.holdsKey_iff hkt x).mpr hclash
        | added g rest' hfree h' hs =>
          obtain ⟨rfl, rfl⟩ := List.cons.inj hfree
          refine ⟨fun herr => ?_, iff_of_false (by decide) ?_⟩
          · exact absurd herr (by decide)
          · rintro ⟨-, -, y, hy, hkey⟩
            obtain rfl : x = y := Option.some.inj hy
            obtain ⟨j, hj, p, hp, hkeyp⟩ := (h.holdsKey_iff hkt x).mp hkey
            exact key_ne_of_adds h h' hs hj hp hkeyp

/-! ## Updating -/

theorem Designates.findsOneRecord {x : R} (h : Designates kt s x p) : FindsOneRecord kt s x := by
  intro _ j hj
  rw [h j hj, h 0 (Nat.zero_lt_of_lt hj)]

/-- The element that all the indexes find is the one with the keys. -/
theorem DbRel.designates_key (hkt : ∀ i, ComparesBy (kt.compare i) (key i)) (h : DbRel key s slots free) {x : R}
    (hp : Designates kt s x p) : p ∈ slots ∧ key 0 (s.mpElementList p) = key 0 x := by
  have hfound := hp 0 h.nbIndex
  rcases (h.trees 0 h.nbIndex).search hkt (.argument x) with ⟨n, q, hsearch, hdata, hq, hkey⟩ | ⟨hsearch, -⟩
  · simp only [foundSlot, hsearch, hdata, position, Option.bind_some, Option.some.injEq] at hfound
    subst hfound
    exact ⟨hq, hkey⟩
  · simp [foundSlot, hsearch] at hfound

/-- The records of an index after the element `p` has got the record `x`. -/
theorem DbRel.replaces (hkt : ∀ i, ComparesBy (kt.compare i) (key i)) (h : DbRel key s slots free)
    {slots' free' : List Nat} (h' : DbRel key s' slots' free') (hp : p ∈ slots)
    (hslots : slots'.Perm (p :: slots.erase p)) {x : R}
    (helements : s'.mpElementList = Function.update s.mpElementList p x)
    (hnb : s'.mNbIndex_U32 = s.mNbIndex_U32) {j : Nat} (hj : j < s.mNbIndex_U32) :
    Replaces kt j (s.recordsOf j) (s'.recordsOf j) (s.mpElementList p) x := by
  obtain ⟨hperm, hord⟩ := (h.trees j hj).recordsOf
  obtain ⟨hperm', hord'⟩ := (h'.trees j (by rw [hnb]; exact hj)).recordsOf
  have hnd := (List.nodup_append'.mp h.nodup).1
  refine replaces_of_perm hkt (m := (slots.erase p).map s.mpElementList) ?_ ?_ hord hord'
  · exact hperm.trans ((List.perm_cons_erase hp).map s.mpElementList)
  · refine hperm'.trans ((hslots.map _).trans (List.Perm.of_eq ?_))
    rw [List.map_cons, helements, Function.update_self]
    congr 1
    refine List.map_congr_left fun q hq => Function.update_of_ne ?_ _ _
    rintro rfl
    exact hnd.not_mem_erase hq

/-- Where the old record is put back, the records of an index are as they were. -/
theorem DbRel.restores (h : DbRel key s slots free) {free' : List Nat}
    (h' : DbRel key s' (p :: slots.erase p) free') (hp : p ∈ slots)
    (helements : s'.mpElementList = Function.update s.mpElementList p (s.mpElementList p))
    (hnb : s'.mNbIndex_U32 = s.mNbIndex_U32) {j : Nat} (hj : j < s.mNbIndex_U32) :
    s'.recordsOf j = s.recordsOf j := by
  refine recordsOf_eq_of_perm (h.trees j hj) (h'.trees j (by rw [hnb]; exact hj)) ?_
  rw [helements, Function.update_eq_self]
  exact ((List.perm_cons_erase hp).map s.mpElementList).symm

/-- Where the caller's two records are equal, nothing is done. -/
theorem updateElement_equal {cursor : Option Nat} {search new : R} (hopen : s.isOpen cursor = true)
    (hequal : kt.notEqual search new = false) :
    s.updateElement kt cursor (some search) (some new) = some (s, .noError) := by
  unfold RamDb.updateElement
  rw [if_pos hopen]
  exact if_neg (by simp [hequal])

theorem Holds.pairwise_precedes (hkt : ∀ i, ComparesBy (kt.compare i) (key i))
    (h : Holds key s i (s.mppRamDbTree i) slots) : (s.recordsOf i).Pairwise (Precedes kt i) :=
  h.recordsOf.2.imp fun hlt => (precedes_iff hkt).mpr hlt

theorem DbRel.updateIsAtomic_iff (hkt : ∀ i, ComparesBy (kt.compare i) (key i)) (h : DbRel key s slots free)
    (cursor : Option Nat) {search new : R} (hdes : Designates kt s search p) :
    UpdateIsAtomic kt s cursor search new p ↔ ComparesStored kt s cursor search new p := by
  obtain ⟨hp, hkey⟩ := h.designates_key hkt hdes
  constructor
  · rintro ⟨s', err, heq, hreplaced, -⟩ hopen
    cases hne : kt.notEqual search new with
    | true => exact Or.inl rfl
    | false =>
      rw [updateElement_equal hopen hne, Option.some.injEq, Prod.mk.injEq] at heq
      obtain ⟨rfl, rfl⟩ := heq
      exact Or.inr (eq_of_replaces_self (hreplaced rfl 0 h.nbIndex))
  · intro hstored
    have hone : s.isOpen cursor → kt.notEqual search new → FindsOneRecord kt s search :=
      fun _ _ => hdes.findsOneRecord
    obtain ⟨s', err, heq, hres⟩ := h.updateResult hkt cursor hone
    refine ⟨s', err, heq, ?_⟩
    have hsame : ∀ q ∈ slots, key 0 (s.mpElementList q) = key 0 search → q = p := fun q hq hkeyq =>
      (h.trees 0 h.nbIndex).injective hq hp (hkeyq.trans hkey.symm)
    cases hres with
    | unchanged err hwhy =>
      refine ⟨fun hok j hj => ?_, fun _ _ _ => rfl⟩
      -- the two records of the caller are equal, so the new one is stored already
      obtain ⟨hopen, hequal⟩ := hwhy hok
      have hnew : s.mpElementList p = new := by
        rcases hstored hopen with hne | hnew
        · exact absurd (hequal.symm.trans hne) (by decide)
        · exact hnew
      have hmem : new ∈ s.recordsOf j := by
        rw [← hnew]
        exact (h.trees j hj).recordsOf.1.mem_iff.mpr (List.mem_map_of_mem hp)
      obtain ⟨l₁, l₂, hl⟩ := List.append_of_mem hmem
      exact ⟨(h.trees j hj).pairwise_precedes hkt, l₁, l₂, l₁, l₂, by rw [hnew, hl], hl, rfl⟩
    | written q m hcall hq hkeyq hfound hsk h' =>
      obtain rfl := hsame q hq (hkeyq 0 h.nbIndex)
      refine ⟨fun _ j hj => ?_, fun hne => absurd rfl hne⟩
      exact h.replaces hkt (h'.setCursorElement cursor _) hp (List.perm_cons_erase hp)
        (by cases cursor <;> rfl) (by cases cursor <;> rfl) hj
    | replaced q x err hcall hq hkeyq hfound hsk hx hs hs₁ h' =>
      obtain rfl := hsame q hq (hkeyq 0 h.nbIndex)
      have helements := hs₁.elements
      rw [hs.elements] at helements
      have hnb := hs₁.nbIndex.trans hs.nbIndex
      refine ⟨fun hok j hj => ?_, fun hne j hj => ?_⟩
      · rcases hx with ⟨rfl, -⟩ | ⟨-, hne⟩
        · exact h.replaces hkt h' hp (List.Perm.refl _) helements hnb hj
        · exact absurd hok hne
      · rcases hx with ⟨-, hok⟩ | ⟨rfl, -⟩
        · exact absurd hok hne
        · exact h.restores h' hp helements hnb hj

/-! ## Runs -/

/-- In every state that is reached by calls that delete and update records that are the same in all the indexes,
`InsertElement` is all-or-nothing, and `UpdateElement` is exactly if it does not pass over a stored record that
differs from the new one because the caller's two records are equal. -/
theorem ramDb_writesAreAtomic (kt : RamDbKeyType R) (key : ∀ i, R → K i) (nbMaxElement nbIndex : Nat)
    (pElement : Nat → R) (hkt : ∀ i, ComparesBy (kt.compare i) (key i)) (hpos : 0 < nbMaxElement)
    (hlt : nbMaxElement < 4294967296) (hindex : 0 < nbIndex) (ops : List (Call R))
    (hc : Meets (call kt) (CallHitsOneRecord kt) (create nbMaxElement nbIndex pElement) ops) :
    let s := (run (call kt) (create nbMaxElement nbIndex pElement) ops).1
    (∀ cursor pElement, InsertIsAtomic kt s cursor pElement) ∧
      ∀ cursor search new p, Designates kt s search p →
        (UpdateIsAtomic kt s cursor search new p ↔ ComparesStored kt s cursor search new p) := by
  intro s
  have hcreate : Reached key (create nbMaxElement nbIndex pElement) :=
    ⟨⟨_, _, dbRel_create hpos hlt hindex pElement⟩, fun c hopen => absurd hopen (by
      simp [isOpen, create, cursorMagicNumber])⟩
  obtain ⟨slots, free, h⟩ :=
    (inv_run (P := Reached key) (fun s op h hop => h.call hkt op hop) hcreate hc).rel
  exact ⟨h.insertIsAtomic hkt, fun cursor search new p hdes => h.updateIsAtomic_iff hkt cursor hdes⟩

/-- Two records, of which one is updated and one deleted. -/
theorem writesAreAtomic_two_indexes :
    let s := (run (call twoKeys) (create 3 2 fun _ => (0, 0))
      [.change (.getCursor 0 true), .change (.insertElement (some 0) (some (1, 1))),
        .change (.insertElement (some 0) (some (2, 2))),
        .change (.updateElement (some 0) (some (1, 1)) (some (3, 3))), .change (.deleteElement (some (2, 2)))]).1
    (∀ cursor pElement, InsertIsAtomic twoKeys s cursor pElement) ∧
      ∀ cursor search new p, Designates twoKeys s search p →
        (UpdateIsAtomic twoKeys s cursor search new p ↔ ComparesStored twoKeys s cursor search new p) :=
  ramDb_writesAreAtomic twoKeys (fun i z => if i = 0 then z.1 else z.2) 3 2 (fun _ => (0, 0))
    (fun _ _ _ => rfl) (by decide) (by decide) (by decide) _ (by decide +kernel)

/-- After the deletion of a record with the first key of one record and the second key of another one, a
refused record overwrites the element of a stored one. And with one index, an update whose two records are
equal succeeds, although another record is stored and stays. -/
theorem not_writesAreAtomic :
    ¬InsertIsAtomic twoKeys (run (call twoKeys) (create 3 2 fun _ => (0, 0))
        [.change (.getCursor 0 true), .change (.insertElement (some 0) (some (1, 1))),
          .change (.insertElement (some 0) (some (2, 2))), .change (.deleteElement (some (1, 2)))]).1
      (some 0) (some (5, 1)) ∧
    Designates twoKeys (run (call twoKeys) (create 3 1 fun _ => (0, 0))
        [.change (.getCursor 0 true), .change (.insertElement (some 0) (some (1, 5)))]).1 (1, 7) 0 ∧
    ¬UpdateIsAtomic twoKeys (run (call twoKeys) (create 3 1 fun _ => (0, 0))
        [.change (.getCursor 0 true), .change (.insertElement (some 0) (some (1, 5)))]).1
      (some 0) (1, 7) (1, 7) 0 := by
  refine ⟨?_, ?_, ?_⟩
  · rintro ⟨s', err, heq, hunchanged, -⟩
    have hres := congrArg (Option.map fun r => (r.2, r.1.recordsOf 0)) heq
    rw [show Option.map _ _ = some (BofErr.duplicate, [(5, 1)]) by decide +kernel, Option.map_some,
      Option.some.injEq, Prod.mk.injEq] at hres
    have hsame := (hunchanged (Or.inl hres.1.symm)).records 0 (by decide +kernel)
    rw [← hres.2, show RamDb.recordsOf _ 0 = [(2, 2)] by decide +kernel] at hsame
    exact absurd hsame (by decide)
  · unfold Designates
    decide +kernel
  · rintro ⟨s', err, heq, hreplaced, -⟩
    have hres := congrArg (Option.map fun r => (r.2, r.1.recordsOf 0)) heq
    rw [show Option.map _ _ = some (BofErr.noError, [(1, 5)]) by decide +kernel, Option.map_some,
      Option.some.injEq, Prod.mk.injEq] at hres
    have hnew := hreplaced hres.1.symm 0 (by decide +kernel)
    rw [← hres.2, show RamDb.recordsOf _ 0 = [(1, 5)] by decide +kernel] at hnew
    exact absurd (eq_of_replaces_self hnew) (by decide +kernel)

end BofStd.RamDb
