import BofStd.FifoOfSpec
import BofStd.Proofs.ListOfProofs
import Mathlib.Data.Nat.Bitwise

/-!
# The pool keeps its items

The pool and the queue are two lists over the same items. An operation of one list writes only to its own
list head and to the links of its own items (`OnlyCells`), and the states lie behind the links, so that the
other list and the states stay as they are; this is stated once for each kind of store and used in every
call. The sign bit of the counter is clear as long as no more than 2^31 - 1 items are free after a removal.
-/

namespace BofStd

open Memory Linked

variable {T : ItemType} {capacity : Nat} {A : FifoPlace T capacity} {mem mem' : Mem} {l : List Nat} {p q x h : Nat}

/-! ## Places -/

namespace FifoPlace

theorem mem_items : p ∈ A.items ↔ ∃ i < capacity, A.poolItem + i * T.size = p := by
  simp only [items, PoolOf.itemsAt, List.mem_map, List.mem_range]

theorem items_bounds (hp : p ∈ A.items) : A.poolItem ≤ p ∧ p + T.size ≤ A.poolItem + capacity * T.size := by
  obtain ⟨i, hi, rfl⟩ := mem_items.mp hp
  have hmul := Nat.mul_le_mul_right T.size (Nat.succ_le_of_lt hi)
  rw [Nat.succ_mul] at hmul
  omega

theorem items_apart (hp : p ∈ A.items) (hq : q ∈ A.items) (hne : p ≠ q) : p + T.size ≤ q ∨ q + T.size ≤ p := by
  obtain ⟨i, -, rfl⟩ := mem_items.mp hp
  obtain ⟨j, -, rfl⟩ := mem_items.mp hq
  have hij : i ≠ j := by
    rintro rfl
    exact hne rfl
  rcases Nat.lt_or_gt_of_ne hij with hlt | hlt
  · have hmul := Nat.mul_le_mul_right T.size (Nat.succ_le_of_lt hlt)
    rw [Nat.succ_mul] at hmul
    omega
  · have hmul := Nat.mul_le_mul_right T.size (Nat.succ_le_of_lt hlt)
    rw [Nat.succ_mul] at hmul
    omega

theorem nodup_items : A.items.Nodup := by
  have hT := T.offset_le
  refine List.Nodup.map_on (fun i _ j _ heq => ?_) List.nodup_range
  have hmul : i * T.size = j * T.size := by omega
  exact Nat.eq_of_mul_eq_mul_right (by omega) hmul

theorem length_items : A.items.length = capacity := by
  rw [items, PoolOf.itemsAt, List.length_map, List.length_range]

/-- The items with the head of the pool. -/
def poolArena (A : FifoPlace T capacity) : Arena T where
  listHead := A.poolHead
  Item p := p ∈ A.items
  listHead_le := A.poolHead_le
  item_pos p hp := by
    have := items_bounds hp
    have := A.poolItem_pos
    omega
  item_le p hp := by
    have := items_bounds hp
    have := A.poolItem_le
    omega
  apart p q hp hq hne := items_apart hp hq hne
  apart_listHead p hp := by
    have := items_bounds hp
    have := A.poolHead_apart
    omega

/-- The items with the head of the queue. -/
def queueArena (A : FifoPlace T capacity) : Arena T where
  listHead := A.queueHead
  Item p := p ∈ A.items
  listHead_le := A.queueHead_le
  item_pos := A.poolArena.item_pos
  item_le := A.poolArena.item_le
  apart := A.poolArena.apart
  apart_listHead p hp := by
    have := items_bounds hp
    have := A.queueHead_apart
    omega

/-- The cells of both lists. -/
def Cell (A : FifoPlace T capacity) (x : Nat) : Prop := x = A.poolHead ∨ x = A.queueHead ∨ x ∈ A.items

theorem cell_apart {y : Nat} (hx : A.Cell x) (hy : A.Cell y) (hne : x ≠ y) : x + 16 ≤ y ∨ y + 16 ≤ x := by
  have hheads := A.heads_apart
  rcases hx with rfl | rfl | hx
  · rcases hy with rfl | rfl | hy
    · exact absurd rfl hne
    · omega
    · exact A.poolArena.cell_apart (.inl rfl) (.inr hy) hne
  · rcases hy with rfl | rfl | hy
    · omega
    · exact absurd rfl hne
    · exact A.queueArena.cell_apart (.inl rfl) (.inr hy) hne
  · rcases hy with rfl | rfl | hy
    · exact A.poolArena.cell_apart (.inr hx) (.inl rfl) hne
    · exact A.queueArena.cell_apart (.inr hx) (.inl rfl) hne
    · exact A.poolArena.cell_apart (.inr hx) (.inr hy) hne

/-- The state of an item lies in no cell. -/
theorem state_apart (hp : p ∈ A.items) (hx : A.Cell x) : p + 20 ≤ x ∨ x + 16 ≤ p + 16 := by
  have hT := T.offset_le
  rcases hx with rfl | rfl | hx
  · have := A.poolArena.apart_listHead p hp
    have hhead : A.poolArena.listHead = A.poolHead := rfl
    omega
  · have := A.queueArena.apart_listHead p hp
    have hhead : A.queueArena.listHead = A.queueHead := rfl
    omega
  · by_cases heq : p = x
    · omega
    · have := items_apart hp hx heq
      omega

end FifoPlace

/-! ## What the stores leave alone -/

/-- The links of a cell are the same in both memories. -/
def SameLinks (mem mem' : Mem) (x : Nat) : Prop := ∀ i, IsLink i → load mem' (x + i) = load mem (x + i)

theorem SameLinks.trans {mem'' : Mem} (hs : SameLinks mem mem' x) (hs' : SameLinks mem' mem'' x) :
    SameLinks mem mem'' x := by
  intro i hi
  rw [hs' i hi, hs i hi]

theorem SingleListOf.Holds.congr {s : SingleListOf} (hh : s.Holds mem l)
    (hsame : ∀ x ∈ s.listHead :: l, SameLinks mem mem' x) : s.Holds mem' l := by
  rw [List.forall_mem_cons] at hsame
  have hhead : load mem' s.listHead = load mem s.listHead := hsame.1 0 (.inl rfl)
  refine ⟨?_, hh.nodup, hh.nbItemAvailable_eq, hh.length_lt⟩
  rw [hhead]
  apply hh.chain.congr
  intro x hx
  exact congrArg _ (hsame.2 x hx 0 (.inl rfl))

theorem DoubleListOf.Holds.congr {s : DoubleListOf} (hh : s.Holds nextItem prevItem mem l)
    (hsame : ∀ x ∈ s.listHead :: l, SameLinks mem mem' x) : s.Holds nextItem prevItem mem' l := by
  have hlink : ∀ x ∈ s.listHead :: l, ∀ i, IsLink i →
      linkAt s.listHead mem' i x = linkAt s.listHead mem i x := by
    intro x hx i hi
    unfold linkAt
    rw [hsame x hx i hi]
  rw [List.forall_mem_cons] at hlink
  obtain ⟨hhead, hitems⟩ := hlink
  have hnext : IsLink nextItem := .inl rfl
  have hprev : IsLink prevItem := .inr rfl
  refine ⟨?_, hh.nbItemAvailable_eq, hh.length_lt⟩
  rw [hhead nextItem hnext, hhead prevItem hprev]
  exact hh.dlist.congr (fun x hx => hitems x hx nextItem hnext) (fun x hx => hitems x hx prevItem hprev)

/-- An operation of one list keeps the links of the other cells. -/
theorem OnlyCells.sameLinks (ho : OnlyCells h l mem mem') (hcells : ∀ y ∈ h :: l, A.Cell y) (hx : A.Cell x)
    (hnot : x ∉ h :: l) : SameLinks mem mem' x := by
  intro i hi
  apply load_congr
  intro a h1 h2
  apply ho
  intro y hy
  unfold IsLink at hi
  have hne : x ≠ y := fun he => hnot (he ▸ hy)
  have := A.cell_apart hx (hcells y hy) hne
  omega

/-- An operation of one list keeps the states. -/
theorem OnlyCells.state_eq (hT : T.offset = 0) (ho : OnlyCells h l mem mem') (hcells : ∀ y ∈ h :: l, A.Cell y)
    (hp : p ∈ A.items) : T.state mem' p = T.state mem p := by
  apply loadWord_congr
  intro a h1 h2
  apply ho
  intro y hy
  have := FifoPlace.state_apart hp (hcells y hy)
  unfold ItemType.stateAt at h1 h2
  omega

/-- Setting a state keeps all links. -/
theorem sameLinks_setState (hT : T.offset = 0) {st : ItemState} (hp : p ∈ A.items) (hx : A.Cell x) :
    SameLinks mem (T.setState mem p st) x := by
  intro i hi
  apply loadWord_storeWord_of_disjoint
  unfold IsLink at hi
  unfold ItemType.stateAt
  have := FifoPlace.state_apart hp hx
  omega

/-- What setting a state does to all states. -/
theorem state_setState {st : ItemState} (hp : p ∈ A.items) (hq : q ∈ A.items) :
    T.state (T.setState mem p st) q = if q = p then st.toNat else T.state mem q := by
  by_cases heq : q = p
  · rw [if_pos heq, heq]
    apply loadWord_storeWord
    cases st
    · decide
    · decide
  · rw [if_neg heq]
    apply loadWord_storeWord_of_disjoint
    have hT := T.offset_le
    unfold ItemType.stateAt
    have := FifoPlace.items_apart hq hp heq
    omega

theorem SameLinks.refl (mem : Mem) (x : Nat) : SameLinks mem mem x := fun _ _ => rfl

/-- The list head of the pool and items are cells. -/
theorem FifoPlace.poolCells (hs : h = A.poolHead) (hl : ∀ x ∈ l, x ∈ A.items) : ∀ y ∈ h :: l, A.Cell y := by
  intro y hy
  rcases List.mem_cons.mp hy with rfl | hy
  · exact .inl hs
  · exact .inr (.inr (hl y hy))

/-- The list head of the queue and items are cells. -/
theorem FifoPlace.queueCells (hs : h = A.queueHead) (hl : ∀ x ∈ l, x ∈ A.items) : ∀ y ∈ h :: l, A.Cell y := by
  intro y hy
  rcases List.mem_cons.mp hy with rfl | hy
  · exact .inr (.inl hs)
  · exact .inr (.inr (hl y hy))

theorem FifoPlace.heads_ne : A.poolHead ≠ A.queueHead := by
  have := A.heads_apart
  omega

/-- A cell of the queue is not a cell of the pool. -/
theorem FifoPlace.queue_not_pool {free queued : List Nat} (hqueued : x = A.queueHead ∨ x ∈ queued) (hfree : ∀ y ∈ free, y ∈ A.items)
    (hitems : ∀ y ∈ queued, y ∈ A.items) (hdisj : ∀ y ∈ queued, y ∉ free) : x ∉ A.poolHead :: free := by
  intro hx
  rcases List.mem_cons.mp hx with rfl | hx
  · rcases hqueued with hq | hq
    · exact FifoPlace.heads_ne hq
    · exact A.poolArena.ne_listHead (hitems _ hq) rfl
  · rcases hqueued with rfl | hq
    · exact A.queueArena.ne_listHead (hfree _ hx) rfl
    · exact hdisj x hq hx

/-- A cell of the pool is not a cell of the queue. -/
theorem FifoPlace.pool_not_queue {free queued : List Nat} (hfree : x = A.poolHead ∨ x ∈ free) (hitems : ∀ y ∈ free, y ∈ A.items)
    (hqueued : ∀ y ∈ queued, y ∈ A.items) (hdisj : ∀ y ∈ queued, y ∉ free) : x ∉ A.queueHead :: queued := by
  intro hx
  rcases List.mem_cons.mp hx with rfl | hx
  · rcases hfree with hq | hq
    · exact FifoPlace.heads_ne hq.symm
    · exact A.queueArena.ne_listHead (hitems _ hq) rfl
  · rcases hfree with rfl | hq
    · exact A.poolArena.ne_listHead (hqueued _ hx) rfl
    · exact hdisj x hx hq

/-! ## The pool -/

namespace PoolOf

/-- The loop that puts the items into the list. -/
theorem insertAll_spec (hT : T.offset = 0) (setFree : Bool) {ps : List Nat} {list : SingleListOf}
    (hs : list.listHead = A.poolHead) (hh : list.Holds mem l) (hitems : ∀ x ∈ ps.reverse ++ l, x ∈ A.items)
    (hnd : (ps.reverse ++ l).Nodup) (hlt : (ps.reverse ++ l).length < 2 ^ 32) :
    ∃ list' mem', insertAll T setFree ps list mem = (list', mem') ∧ list'.listHead = A.poolHead ∧
      list'.Holds mem' (ps.reverse ++ l) ∧ SameLinks mem mem' A.queueHead ∧
      ∀ q ∈ A.items, T.state mem' q =
        if setFree = true ∧ q ∈ ps then ItemState.free.toNat else T.state mem q := by
  induction ps generalizing list mem l with
  | nil =>
    refine ⟨list, mem, rfl, hs, hh, SameLinks.refl _ _, ?_⟩
    intro q _
    rw [if_neg (fun hq => List.not_mem_nil hq.2)]
  | cons p ps ih =>
    rw [List.reverse_cons, List.append_assoc, List.singleton_append] at hitems hnd hlt ⊢
    have hp : p ∈ A.items := hitems p (List.mem_append_right _ List.mem_cons_self)
    have hl : ∀ x ∈ l, x ∈ A.items := fun x hx =>
      hitems x (List.mem_append_right _ (List.mem_cons_of_mem _ hx))
    have hnew : p ∉ l := (List.nodup_cons.mp (List.nodup_append.mp hnd).2.1).1
    have hlen : l.length + 1 < 2 ^ 32 := by
      rw [List.length_append, List.length_cons] at hlt
      omega
    -- the state of the item, set only in `Reset`
    generalize hmem : (if setFree then T.setState mem p .free else mem) = mem₁
    have hsame : ∀ x, A.Cell x → SameLinks mem mem₁ x := by
      intro x hx
      rw [← hmem]
      cases setFree with
      | false => exact SameLinks.refl _ _
      | true => exact sameLinks_setState hT hp hx
    have hstate : ∀ q ∈ A.items, T.state mem₁ q =
        if setFree = true ∧ q = p then ItemState.free.toNat else T.state mem q := by
      intro q hq
      rw [← hmem]
      cases setFree with
      | false => simp
      | true => simp [state_setState hp hq]
    have hcells := FifoPlace.poolCells hs hl
    have hh₁ : list.Holds mem₁ l := hh.congr fun x hx => hsame x (hcells x hx)
    obtain ⟨mem₂, hinsert, hh₂, ho⟩ := SingleListOf.insertHead_spec (A := A.poolArena) hT hs hh₁ hl hp hnew hlen
    have hcells₂ := FifoPlace.poolCells hs (l := p :: l) (List.forall_mem_cons.mpr ⟨hp, hl⟩)
    have hs₂ : (⟨list.listHead, list.count.increment⟩ : SingleListOf).listHead = A.poolHead := hs
    obtain ⟨list', mem', hrest, hs', hh', hqueue, hstates⟩ := ih hs₂ hh₂ hitems hnd hlt
    refine ⟨list', mem', ?_, hs', hh', ?_, ?_⟩
    · simp only [insertAll, hmem, hinsert]
      exact hrest
    · have hqcell : A.Cell A.queueHead := .inr (.inl rfl)
      have hnot : A.queueHead ∉ list.listHead :: p :: l := by
        intro hx
        rcases List.mem_cons.mp hx with hx | hx
        · exact FifoPlace.heads_ne (hs.symm.trans hx.symm)
        · exact A.queueArena.ne_listHead (List.forall_mem_cons.mpr ⟨hp, hl⟩ _ hx) rfl
      exact ((hsame _ hqcell).trans (ho.sameLinks hcells₂ hqcell hnot)).trans hqueue
    · intro q hq
      rw [hstates q hq, ho.state_eq hT hcells₂ hq, hstate q hq]
      by_cases hset : setFree = true
      · by_cases hqp : q = p
        · simp [hset, hqp]
        · simp [hset, hqp]
      · simp [hset]

/-- The states that the constructors of the items set. -/
theorem foldl_setState (hT : T.offset = 0) (mem : Mem) {ps : List Nat} (hps : ∀ p ∈ ps, p ∈ A.items) :
    (∀ x, A.Cell x → SameLinks mem (ps.foldl (fun mem item => T.setState mem item .free) mem) x) ∧
      ∀ q ∈ A.items, T.state (ps.foldl (fun mem item => T.setState mem item .free) mem) q =
        if q ∈ ps then ItemState.free.toNat else T.state mem q := by
  induction ps generalizing mem with
  | nil => simp [SameLinks.refl]
  | cons p ps ih =>
    rw [List.forall_mem_cons] at hps
    obtain ⟨hlinks, hstates⟩ := ih (T.setState mem p .free) hps.2
    constructor
    · intro x hx
      exact (sameLinks_setState hT hps.1 hx).trans (hlinks x hx)
    · intro q hq
      rw [List.foldl_cons, hstates q hq, state_setState hps.1 hq]
      by_cases hqp : q = p
      · simp [hqp]
      · simp [hqp]

/-- The constructor puts all items into the pool, the last one in front. -/
theorem create_spec (hT : T.offset = 0) (mem : Mem) :
    ∃ pool mem', create T capacity A.poolHead A.poolItem mem = (pool, mem') ∧
      FifoOf.PoolHolds A pool mem' A.items.reverse ∧ SameLinks mem mem' A.queueHead ∧
      ∀ q ∈ A.items, T.state mem' q = ItemState.free.toNat := by
  have hcreate : OnlyCells A.poolHead [] mem (SingleListOf.create A.poolHead mem).2 :=
    ((OnlyCells.refl _ _ _).store (i := 0) List.mem_cons_self (.inl rfl)).store List.mem_cons_self (.inr rfl)
  have hcells : ∀ y ∈ A.poolHead :: [], A.Cell y := FifoPlace.poolCells rfl fun x hx => nomatch hx
  have hempty : (SingleListOf.create A.poolHead mem).1.Holds (SingleListOf.create A.poolHead mem).2 [] :=
    SingleListOf.holds_create (A := A.poolArena)
  obtain ⟨hlinks, hstates⟩ := foldl_setState (A := A) hT (SingleListOf.create A.poolHead mem).2 (fun p hp => hp)
  have hqcell : A.Cell A.queueHead := .inr (.inl rfl)
  have hlen : (A.items.reverse ++ []).length < 2 ^ 32 := by
    rw [List.append_nil, List.length_reverse, FifoPlace.length_items]
    exact A.capacity_lt
  have hitems : ∀ x ∈ A.items.reverse ++ [], x ∈ A.items := by
    intro x hx
    rwa [List.append_nil, List.mem_reverse] at hx
  have hnd : (A.items.reverse ++ []).Nodup := by
    rw [List.append_nil]
    exact List.nodup_reverse.mpr FifoPlace.nodup_items
  obtain ⟨list, mem', hinsert, hs, hh, hqueue, hfree⟩ := insertAll_spec hT false rfl
    (hempty.congr fun x hx => hlinks x (hcells x hx)) hitems hnd hlen
  rw [List.append_nil] at hh
  refine ⟨⟨capacity, list, capacity, A.poolItem⟩, mem', ?_, ⟨hs, rfl, rfl, hh⟩, ?_, ?_⟩
  · unfold create
    exact congrArg (fun r : SingleListOf × Mem => (PoolOf.mk capacity r.1 capacity A.poolItem, r.2)) hinsert
  · have hnot : A.queueHead ∉ A.poolHead :: [] := by
      rw [List.mem_singleton]
      exact fun he => FifoPlace.heads_ne he.symm
    exact ((hcreate.sameLinks hcells hqcell hnot).trans (hlinks _ hqcell)).trans hqueue
  · intro q hq
    rw [hfree q hq, if_neg (fun hc => nomatch hc.1), hstates q hq, if_pos hq]

/-- A count below 2^31 has no sign bit. -/
theorem and_sign_eq_zero {n : Nat} (hn : n < 2 ^ 31) : n &&& 0x80000000 = 0 := by
  have hbit : n.testBit 31 = false := Nat.testBit_lt_two_pow hn
  have hand := Nat.and_two_pow n 31
  rw [hbit] at hand
  simpa using hand

theorem and_sign_ne_zero {n : Nat} (hle : 2 ^ 31 ≤ n) (hlt : n < 2 ^ 32) : n &&& 0x80000000 ≠ 0 := by
  have hbit : n.testBit 31 = true := by
    rw [Nat.testBit_eq_decide_div_mod_eq]
    simp only [decide_eq_true_iff]
    omega
  have hand := Nat.and_two_pow n 31
  rw [hbit] at hand
  intro hzero
  have hpow : (2 ^ 31 : Nat) = 0x80000000 := by decide
  rw [hpow, hzero] at hand
  simp at hand

/-- `GetItem` hands out the first free item, as long as the count has no sign bit. -/
theorem getItem_spec (hT : T.offset = 0) {pool : PoolOf} {free : List Nat} (hh : FifoOf.PoolHolds A pool mem free)
    (hl : ∀ x ∈ free, x ∈ A.items) (hstate : ∀ p ∈ free, T.state mem p = ItemState.free.toNat)
    (hlt : free.length ≤ 2 ^ 31) :
    ∃ pool' mem', pool.getItem T mem = (pool', mem', free.head?.getD 0) ∧ FifoOf.PoolHolds A pool' mem' free.tail ∧
      (∀ x, A.Cell x → x ∉ A.poolHead :: free → SameLinks mem mem' x) ∧
      ∀ q ∈ A.items, T.state mem' q = if free.head? = some q then ItemState.taken.toNat else T.state mem q := by
  obtain ⟨list, mem₁, hremove, hlist, hs, -, ho⟩ := SingleListOf.removeHead_spec (A := A.poolArena) hT
    hh.listHead_eq hh.list hl
  rw [hh.listHead_eq] at hs ho
  have hcells : ∀ y ∈ A.poolHead :: free, A.Cell y := FifoPlace.poolCells rfl hl
  cases free with
  | nil =>
    refine ⟨{ pool with itemList := list }, mem₁, ?_, ⟨hs, hh.poolItem_eq, hh.maxNumberOfItemInPool_eq, hlist⟩, ?_, ?_⟩
    · simp only [getItem, hremove]
      rfl
    · intro x hx hnot
      exact ho.sameLinks hcells hx hnot
    · intro q hq
      rw [ho.state_eq hT hcells hq]
      rfl
  | cons p free =>
    rw [List.forall_mem_cons] at hl hstate
    have hpos := A.poolArena.item_pos p hl.1
    have hold : T.state mem₁ p = ItemState.free.toNat := by
      rw [ho.state_eq hT hcells hl.1]
      exact hstate.1
    have hcount : list.count.nbItemAvailable &&& 0x80000000 = 0 := by
      apply and_sign_eq_zero
      rw [hlist.nbItemAvailable_eq]
      rw [List.length_cons] at hlt
      exact hlt
    have hlinks : ∀ x, A.Cell x → SameLinks mem₁ (T.setState mem₁ p .taken) x := fun x hx =>
      sameLinks_setState hT hl.1 hx
    refine ⟨⟨pool.maxNumberOfItemInPool, list, if list.count.nbItemAvailable < pool.nbMinPoolItemAvailable then
      list.count.nbItemAvailable else pool.nbMinPoolItemAvailable, pool.poolItem⟩, T.setState mem₁ p .taken, ?_,
      ⟨hs, hh.poolItem_eq, hh.maxNumberOfItemInPool_eq, hlist.congr ?_⟩, ?_, ?_⟩
    · simp only [getItem, hremove, List.head?_cons, Option.getD_some, hold, hcount, if_true]
      rw [if_pos (Nat.ne_of_gt hpos)]
    · intro x hx
      exact hlinks x (FifoPlace.poolCells hs hl.2 x hx)
    · intro x hx hnot
      exact (ho.sameLinks hcells hx hnot).trans (hlinks x hx)
    · intro q hq
      rw [state_setState hl.1 hq, ho.state_eq hT hcells hq, List.head?_cons]
      by_cases hqp : q = p
      · rw [if_pos hqp, if_pos (congrArg some hqp.symm)]
      · rw [if_neg hqp, if_neg (fun he => hqp (Option.some.inj he).symm)]

/-- `ReleaseItem` puts an item that is taken back in front. -/
theorem releaseItem_spec (hT : T.offset = 0) {pool : PoolOf} {free : List Nat} (hh : FifoOf.PoolHolds A pool mem free)
    (hl : ∀ x ∈ free, x ∈ A.items) (hp : p ∈ A.items) (hnew : p ∉ free)
    (hstate : T.state mem p = ItemState.taken.toNat) (hlt : free.length + 1 ≤ capacity) :
    ∃ pool' mem', pool.releaseItem T mem p = (pool', mem', true) ∧ FifoOf.PoolHolds A pool' mem' (p :: free) ∧
      (∀ x, A.Cell x → x ∉ A.poolHead :: p :: free → SameLinks mem mem' x) ∧
      ∀ q ∈ A.items, T.state mem' q = if q = p then ItemState.free.toNat else T.state mem q := by
  have hpos := A.poolArena.item_pos p hp
  have hcap := A.capacity_lt
  have hlinks : ∀ x, A.Cell x → SameLinks mem (T.setState mem p .free) x := fun x hx =>
    sameLinks_setState hT hp hx
  have hlist : pool.itemList.Holds (T.setState mem p .free) free :=
    hh.list.congr fun x hx => hlinks x (FifoPlace.poolCells hh.listHead_eq hl x hx)
  obtain ⟨mem', hinsert, hlist', ho⟩ := SingleListOf.insertHead_spec (A := A.poolArena) hT hh.listHead_eq hlist hl hp
    hnew (Nat.lt_of_le_of_lt hlt hcap)
  rw [hh.listHead_eq] at ho
  have hcells : ∀ y ∈ A.poolHead :: p :: free, A.Cell y :=
    FifoPlace.poolCells rfl (List.forall_mem_cons.mpr ⟨hp, hl⟩)
  have hcount : pool.itemList.count.increment.nbItemAvailable ≤ pool.maxNumberOfItemInPool := by
    have hnb := hlist'.nbItemAvailable_eq
    rw [List.length_cons] at hnb
    rw [hnb, hh.maxNumberOfItemInPool_eq]
    exact hlt
  refine ⟨{ pool with itemList := ⟨pool.itemList.listHead, pool.itemList.count.increment⟩ }, mem', ?_,
    ⟨hh.listHead_eq, hh.poolItem_eq, hh.maxNumberOfItemInPool_eq, hlist'⟩, ?_, ?_⟩
  · simp only [releaseItem, hstate, hinsert, if_true, decide_eq_true hcount]
    rw [if_pos (Nat.ne_of_gt hpos)]
  · intro x hx hnot
    exact (hlinks x hx).trans (ho.sameLinks hcells hx hnot)
  · intro q hq
    rw [ho.state_eq hT hcells hq, state_setState hp hq]

/-- `Reset` makes all items free. -/
theorem reset_spec (hT : T.offset = 0) {pool : PoolOf} {free : List Nat} (hh : FifoOf.PoolHolds A pool mem free)
    (hl : ∀ x ∈ free, x ∈ A.items) :
    ∃ pool' mem', pool.reset T mem = some (pool', mem') ∧ FifoOf.PoolHolds A pool' mem' A.items.reverse ∧
      SameLinks mem mem' A.queueHead ∧ ∀ q ∈ A.items, T.state mem' q = ItemState.free.toNat := by
  have hlen : free.length < 2 ^ 64 := Nat.lt_trans hh.list.length_lt (by decide)
  obtain ⟨list₁, mem₁, hremove, hlist₁, hs₁, ho⟩ := SingleListOf.removeAll_spec (A := A.poolArena) hT hlen
    hh.listHead_eq hh.list hl
  rw [hh.listHead_eq] at hs₁ ho
  have hitems : ∀ x ∈ A.items.reverse ++ [], x ∈ A.items := by
    intro x hx
    rwa [List.append_nil, List.mem_reverse] at hx
  have hnd : (A.items.reverse ++ []).Nodup := by
    rw [List.append_nil]
    exact List.nodup_reverse.mpr FifoPlace.nodup_items
  have hlen' : (A.items.reverse ++ []).length < 2 ^ 32 := by
    rw [List.append_nil, List.length_reverse, FifoPlace.length_items]
    exact A.capacity_lt
  obtain ⟨list, mem', hinsert, hs, hlist, hqueue, hstates⟩ := insertAll_spec hT true hs₁ hlist₁ hitems hnd hlen'
  rw [List.append_nil] at hlist
  refine ⟨⟨capacity, list, capacity, A.poolItem⟩, mem', ?_, ⟨hs, rfl, rfl, hlist⟩, ?_, ?_⟩
  · unfold reset
    rw [hremove, Option.map_some, hh.poolItem_eq, hh.maxNumberOfItemInPool_eq]
    have hitems' : itemsAt T A.poolItem capacity = A.items := rfl
    simp only [hitems', hinsert]
  · have hcells : ∀ y ∈ A.poolHead :: free, A.Cell y := FifoPlace.poolCells rfl hl
    have hnot : A.queueHead ∉ A.poolHead :: free := by
      intro hx
      rcases List.mem_cons.mp hx with hx | hx
      · exact FifoPlace.heads_ne hx.symm
      · exact A.queueArena.ne_listHead (hl _ hx) rfl
    exact (ho.sameLinks hcells (.inr (.inl rfl)) hnot).trans hqueue
  · intro q hq
    rw [hstates q hq, if_pos ⟨rfl, hq⟩]

end PoolOf

end BofStd
