import BofStd.Proofs.PoolOfProofs

/-!
# The queue keeps its items

Each call on a queue with internal storage is a call on the three lists of `FifoItems`: an operation of the
pool leaves the links of the queue alone, and the other way round.
-/

namespace BofStd

open Memory

variable {T : ItemType} {capacity : Nat} {A : FifoPlace T capacity} {mem mem' : Mem} {p x : Nat}

namespace FifoOf

variable {s : FifoOf} {a : FifoItems} {free queued : List Nat} {pool : PoolOf} {list : DoubleListOf}

theorem PoolHolds.congr (hh : PoolHolds A pool mem free) (hsame : ∀ x ∈ A.poolHead :: free, SameLinks mem mem' x) :
    PoolHolds A pool mem' free :=
  ⟨hh.listHead_eq, hh.poolItem_eq, hh.maxNumberOfItemInPool_eq, hh.list.congr (hh.listHead_eq.symm ▸ hsame)⟩

theorem QueueHolds.congr (hh : QueueHolds A list mem queued)
    (hsame : ∀ x ∈ A.queueHead :: queued, SameLinks mem mem' x) : QueueHolds A list mem' queued := by
  refine ⟨hh.listHead_eq, hh.list.congr ?_⟩
  intro x hx
  apply hsame
  rw [hh.listHead_eq] at hx
  simpa using hx

/-- The places of the items are disjoint. -/
theorem Partitioned.nodup (hp : Partitioned A s mem a) : (a.free ++ (a.held ++ a.queued)).Nodup :=
  hp.places.nodup_iff.mpr FifoPlace.nodup_items

theorem Partitioned.mem_items (hp : Partitioned A s mem a) (hx : x ∈ a.free ∨ x ∈ a.held ∨ x ∈ a.queued) :
    x ∈ A.items := by
  apply hp.places.mem_iff.mp
  rw [List.mem_append, List.mem_append]
  exact hx

theorem Partitioned.length (hp : Partitioned A s mem a) :
    a.free.length + (a.held.length + a.queued.length) = capacity := by
  have hlen := hp.places.length_eq
  rw [List.length_append, List.length_append, FifoPlace.length_items] at hlen
  exact hlen

/-- A new queue. -/
theorem create_partitioned (hT : T.offset = 0) (A : FifoPlace T capacity) (mem : Mem) :
    Partitioned A (A.create mem).1 (A.create mem).2 A.start := by
  obtain ⟨pool, mem', hcreate, hpool, hlinks, hstates⟩ := PoolOf.create_spec (A := A) hT
    (DoubleListOf.create A.queueHead mem).2
  have hne : capacity ≠ 0 := Nat.ne_of_gt A.capacity_pos
  have hqueue : DoubleListOf.Holds DoubleListOf.nextItem DoubleListOf.prevItem
      (DoubleListOf.create A.queueHead mem).1 (DoubleListOf.create A.queueHead mem).2 [] :=
    DoubleListOf.holds_create (A := A.queueArena)
  have heq : A.create mem = (⟨(DoubleListOf.create A.queueHead mem).1, some pool⟩, mem') := by
    simp only [FifoPlace.create, create, hcreate]
    rw [if_pos hne]
  rw [heq]
  refine ⟨⟨pool, rfl, hpool⟩, ⟨rfl, hqueue.congr ?_⟩, ?_, ?_⟩
  · intro x hx
    rcases List.mem_cons.mp hx with rfl | hx
    · exact hlinks
    · cases hx
  · have happend : A.start.free ++ (A.start.held ++ A.start.queued) = A.items.reverse := List.append_nil _
    rw [happend]
    exact List.reverse_perm _
  · intro p hp
    rw [hstates p hp]
    exact (if_pos (List.mem_reverse.mpr hp)).symm

/-- `GetFreeInternalFifoItem`. -/
theorem getFree_sim (hT : T.offset = 0) (hcap : capacity ≤ 2 ^ 31) (hp : Partitioned A s mem a) :
    ∃ s' mem', s.getFreeInternalFifoItem T mem = (s', mem', a.free.head?.getD 0) ∧
      Partitioned A s' mem' ⟨a.free.tail, a.free.head?.toList ++ a.held, a.queued⟩ := by
  obtain ⟨pool, hpool, hholds⟩ := hp.pool
  obtain ⟨-, hnd', hdisj⟩ := List.nodup_append.mp hp.nodup
  have hfree : ∀ x ∈ a.free, x ∈ A.items := fun x hx => hp.mem_items (.inl hx)
  have hqueued : ∀ x ∈ a.queued, x ∈ A.items := fun x hx => hp.mem_items (.inr (.inr hx))
  have hlen := hp.length
  have hstate : ∀ p ∈ a.free, T.state mem p = ItemState.free.toNat := by
    intro p hpf
    rw [hp.state_eq p (hfree p hpf), if_pos hpf]
  obtain ⟨pool', mem', hget, hholds', hlinks, hstates⟩ := PoolOf.getItem_spec hT hholds hfree hstate (by omega)
  refine ⟨{ s with internalFifoStorage := some pool' }, mem', ?_, ⟨pool', rfl, hholds'⟩, ?_, ?_, ?_⟩
  · simp only [getFreeInternalFifoItem, hpool, hget]
  · refine hp.queue.congr fun x hx => ?_
    have hx' := List.mem_cons.mp hx
    apply hlinks x (FifoPlace.queueCells rfl hqueued x hx)
    exact FifoPlace.queue_not_pool hx' hfree hqueued
      fun y hy hyf => hdisj y hyf y (List.mem_append_right _ hy) rfl
  · have hplaces := hp.places
    cases hf : a.free with
    | nil =>
      rw [hf] at hplaces
      exact hplaces
    | cons p free =>
      rw [hf] at hplaces
      exact List.perm_middle.trans hplaces
  · intro q hq
    rw [hstates q hq, hp.state_eq q hq]
    have hnd := (List.nodup_append.mp hp.nodup).1
    cases hf : a.free with
    | nil => rfl
    | cons p free =>
      rw [hf, List.nodup_cons] at hnd
      by_cases hqp : q = p
      · have hhead : (p :: free).head? = some q := congrArg some hqp.symm
        rw [if_pos hhead]
        exact (if_neg (hqp ▸ hnd.1)).symm
      · have hhead : (p :: free).head? ≠ some q := fun he => hqp (Option.some.inj he).symm
        rw [if_neg hhead]
        have hmem : q ∈ p :: free ↔ q ∈ free := by
          rw [List.mem_cons]
          exact or_iff_right hqp
        exact if_congr hmem rfl rfl

/-- The pool is not touched by an operation of the queue. -/
theorem PoolHolds.of_onlyCells {l : List Nat} (hh : PoolHolds A pool mem free) (ho : OnlyCells A.queueHead l mem mem')
    (hfree : ∀ x ∈ free, x ∈ A.items) (hl : ∀ x ∈ l, x ∈ A.items) (hdisj : ∀ x ∈ l, x ∉ free) :
    PoolHolds A pool mem' free := by
  refine hh.congr fun x hx => ?_
  exact ho.sameLinks (FifoPlace.queueCells rfl hl) (FifoPlace.poolCells rfl hfree x hx)
    (FifoPlace.pool_not_queue (List.mem_cons.mp hx) hfree hl hdisj)

/-- `Insert` of an item that the caller holds. -/
theorem insert_sim (hT : T.offset = 0) (hp : Partitioned A s mem a) (hheld : p ∈ a.held) :
    ∃ s' mem', s.insert mem p = (s', mem', true) ∧
      Partitioned A s' mem' ⟨a.free, a.held.erase p, a.queued ++ [p]⟩ := by
  obtain ⟨pool, hpool, hholds⟩ := hp.pool
  obtain ⟨-, hnd, hdisj⟩ := List.nodup_append.mp hp.nodup
  obtain ⟨-, -, hdisj'⟩ := List.nodup_append.mp hnd
  have hfree : ∀ x ∈ a.free, x ∈ A.items := fun x hx => hp.mem_items (.inl hx)
  have hitem : p ∈ A.items := hp.mem_items (.inr (.inl hheld))
  have hqueued : ∀ x ∈ a.queued.reverse, x ∈ A.items := fun x hx =>
    hp.mem_items (.inr (.inr (List.mem_reverse.mp hx)))
  have hnew : p ∉ a.queued.reverse := fun hq => hdisj' p hheld p (List.mem_reverse.mp hq) rfl
  have hlen : a.queued.reverse.length + 1 < 2 ^ 32 := by
    have htotal := hp.length
    have hpos := List.length_pos_of_mem hheld
    have hcap := A.capacity_lt
    have hne : a.held.length + a.queued.length ≤ capacity := by omega
    rw [List.length_reverse]
    omega
  obtain ⟨mem', hinsert, hlist, ho⟩ := DoubleListOf.insert_spec (A := A.queueArena) (.inl ⟨rfl, rfl⟩)
    hp.queue.listHead_eq hp.queue.list hqueued hitem hnew hlen
  rw [hp.queue.listHead_eq] at ho
  have hl : ∀ x ∈ p :: a.queued.reverse, x ∈ A.items := List.forall_mem_cons.mpr ⟨hitem, hqueued⟩
  have hnotfree : ∀ x ∈ p :: a.queued.reverse, x ∉ a.free := by
    intro x hx hxf
    rcases List.mem_cons.mp hx with rfl | hx
    · exact hdisj x hxf x (List.mem_append_left _ hheld) rfl
    · exact hdisj x hxf x (List.mem_append_right _ (List.mem_reverse.mp hx)) rfl
  refine ⟨{ s with fifoItemList := ⟨s.fifoItemList.listHead, s.fifoItemList.count.increment⟩ }, mem', ?_,
    ⟨pool, hpool, hholds.of_onlyCells ho hfree hl hnotfree⟩, ⟨hp.queue.listHead_eq, ?_⟩, ?_, ?_⟩
  · unfold insert DoubleListOf.insertHead
    rw [hinsert]
  · rw [List.reverse_append, List.reverse_singleton, List.singleton_append]
    exact hlist
  · refine (List.Perm.append_left a.free ?_).trans hp.places
    have hperm : (a.held.erase p ++ (a.queued ++ [p])).Perm (p :: (a.held.erase p ++ a.queued)) := by
      rw [← List.append_assoc]
      exact List.perm_append_singleton p _
    exact hperm.trans ((List.perm_cons_erase hheld).symm.append_right a.queued)
  · intro q hq
    rw [ho.state_eq hT (FifoPlace.queueCells rfl hl) hq]
    exact hp.state_eq q hq

/-- `WaitForItem`, when an item is queued. -/
theorem waitForItem_cons (hT : T.offset = 0) (mustQuit : Option Bool) (hp : Partitioned A s mem a)
    (hq : a.queued = p :: queued) :
    ∃ s' mem', s.waitForItem T mem mustQuit true = (s', mem', true, p) ∧
      Partitioned A s' mem' ⟨a.free, p :: a.held, queued⟩ := by
  obtain ⟨pool, hpool, hholds⟩ := hp.pool
  obtain ⟨-, hnd, hdisj⟩ := List.nodup_append.mp hp.nodup
  have hfree : ∀ x ∈ a.free, x ∈ A.items := fun x hx => hp.mem_items (.inl hx)
  have hl : ∀ x ∈ a.queued.reverse, x ∈ A.items := fun x hx =>
    hp.mem_items (.inr (.inr (List.mem_reverse.mp hx)))
  have hnotfree : ∀ x ∈ a.queued.reverse, x ∉ a.free := fun x hx hxf =>
    hdisj x hxf x (List.mem_append_right _ (List.mem_reverse.mp hx)) rfl
  have hempty := hp.queue.list.isEmpty_iff
  obtain ⟨list, mem', hremove, hlist, hs, -, ho⟩ := DoubleListOf.removeTail_spec (A := A.queueArena) hT
    hp.queue.listHead_eq hp.queue.list hl
  rw [hp.queue.listHead_eq] at hs ho
  have hback : a.queued.reverse = queued.reverse ++ [p] := by
    rw [hq, List.reverse_cons]
  rw [hback, List.getLast?_concat] at hremove
  rw [hback, List.dropLast_concat] at hlist
  refine ⟨{ s with fifoItemList := list }, mem', ?_, ⟨pool, hpool, hholds.of_onlyCells ho hfree hl hnotfree⟩,
    ⟨hs, hlist⟩, ?_, ?_⟩
  · have hne : s.fifoItemList.isEmpty mem = false := by
      rw [hempty, hback]
      exact List.isEmpty_eq_false_iff.mpr (List.append_ne_nil_of_right_ne_nil _ (List.cons_ne_nil _ _))
    simp [waitForItem, hne, hremove]
  · have hplaces := hp.places
    rw [hq] at hplaces
    exact (List.Perm.append_left a.free List.perm_middle.symm).trans hplaces
  · intro q hqi
    rw [ho.state_eq hT (FifoPlace.queueCells rfl hl) hqi]
    exact hp.state_eq q hqi

/-- `WaitForItem`, when nothing is queued: only the wish to quit ends it well. -/
theorem waitForItem_nil {mustQuit : Option Bool} (hp : Partitioned A s mem a) (hq : a.queued = []) :
    s.waitForItem T mem mustQuit true = (s, mem, mustQuit.getD false, 0) := by
  have hempty : s.fifoItemList.isEmpty mem = true := by
    rw [hp.queue.list.isEmpty_iff, hq]
    rfl
  cases hquit : mustQuit.getD false with
  | false => simp [waitForItem, hempty, hquit]
  | true => simp [waitForItem, hempty, hquit]

/-- `ReleaseInternalFifoItem` of an item that the caller holds. -/
theorem release_sim (hT : T.offset = 0) (hp : Partitioned A s mem a) (hheld : p ∈ a.held) :
    ∃ s' mem', s.releaseInternalFifoItem T mem p = (s', mem', true) ∧
      Partitioned A s' mem' ⟨p :: a.free, a.held.erase p, a.queued⟩ := by
  obtain ⟨pool, hpool, hholds⟩ := hp.pool
  obtain ⟨-, hnd, hdisj⟩ := List.nodup_append.mp hp.nodup
  obtain ⟨-, -, hdisj'⟩ := List.nodup_append.mp hnd
  have hfree : ∀ x ∈ a.free, x ∈ A.items := fun x hx => hp.mem_items (.inl hx)
  have hqueued : ∀ x ∈ a.queued, x ∈ A.items := fun x hx => hp.mem_items (.inr (.inr hx))
  have hitem : p ∈ A.items := hp.mem_items (.inr (.inl hheld))
  have hnew : p ∉ a.free := fun hpf => hdisj p hpf p (List.mem_append_left _ hheld) rfl
  have htaken : T.state mem p = ItemState.taken.toNat := by
    rw [hp.state_eq p hitem, if_neg hnew]
  have hlen : a.free.length + 1 ≤ capacity := by
    have htotal := hp.length
    have hpos := List.length_pos_of_mem hheld
    omega
  obtain ⟨pool', mem', hrelease, hholds', hlinks, hstates⟩ := PoolOf.releaseItem_spec hT hholds hfree hitem hnew
    htaken hlen
  refine ⟨{ s with internalFifoStorage := some pool' }, mem', ?_, ⟨pool', rfl, hholds'⟩, ?_, ?_, ?_⟩
  · have hpos := A.poolArena.item_pos p hitem
    simp only [releaseInternalFifoItem, hpool, hrelease]
    rw [if_pos (Nat.ne_of_gt hpos)]
  · refine hp.queue.congr fun x hx => ?_
    apply hlinks x (FifoPlace.queueCells rfl hqueued x hx)
    apply FifoPlace.queue_not_pool (List.mem_cons.mp hx) (List.forall_mem_cons.mpr ⟨hitem, hfree⟩) hqueued
    intro y hy hyf
    rcases List.mem_cons.mp hyf with rfl | hyf
    · exact hdisj' y hheld y hy rfl
    · exact hdisj y hyf y (List.mem_append_right _ hy) rfl
  · have hperm : (p :: a.free ++ (a.held.erase p ++ a.queued)).Perm (a.free ++ (p :: a.held.erase p ++ a.queued)) :=
      List.perm_middle.symm
    exact (hperm.trans (((List.perm_cons_erase hheld).symm.append_right a.queued).append_left a.free)).trans hp.places
  · intro q hq
    rw [hstates q hq, hp.state_eq q hq]
    by_cases hqp : q = p
    · rw [if_pos hqp]
      exact (if_pos (hqp ▸ List.mem_cons_self)).symm
    · rw [if_neg hqp]
      have hmem : q ∈ p :: a.free ↔ q ∈ a.free := by
        rw [List.mem_cons]
        exact or_iff_right hqp
      exact (if_congr hmem rfl rfl).symm

/-- `Reset`. -/
theorem reset_sim (hT : T.offset = 0) (hp : Partitioned A s mem a) :
    ∃ s' mem', s.reset T mem = some (s', mem') ∧ Partitioned A s' mem' A.start := by
  obtain ⟨pool, hpool, hholds⟩ := hp.pool
  obtain ⟨-, hnd, hdisj⟩ := List.nodup_append.mp hp.nodup
  have hfree : ∀ x ∈ a.free, x ∈ A.items := fun x hx => hp.mem_items (.inl hx)
  have hl : ∀ x ∈ a.queued.reverse, x ∈ A.items := fun x hx =>
    hp.mem_items (.inr (.inr (List.mem_reverse.mp hx)))
  have hnotfree : ∀ x ∈ a.queued.reverse, x ∉ a.free := fun x hx hxf =>
    hdisj x hxf x (List.mem_append_right _ (List.mem_reverse.mp hx)) rfl
  have hlen : a.queued.reverse.length < 2 ^ 64 := Nat.lt_trans hp.queue.list.length_lt (by decide)
  obtain ⟨list, mem₁, hremove, hlist, hs, ho⟩ := DoubleListOf.removeAll_spec (A := A.queueArena) hT hlen
    hp.queue.listHead_eq hp.queue.list hl
  rw [hp.queue.listHead_eq] at hs ho
  obtain ⟨pool', mem', hreset, hholds', hlinks, hstates⟩ := PoolOf.reset_spec hT
    (hholds.of_onlyCells ho hfree hl hnotfree) hfree
  refine ⟨⟨⟨list.listHead, list.count.resetMax⟩, some pool'⟩, mem', ?_, ⟨pool', rfl, hholds'⟩, ⟨hs, ?_⟩, ?_, ?_⟩
  · simp only [reset, DoubleListOf.reset, hremove, Option.map_some, hpool, hreset, Option.bind_eq_bind,
      Option.bind_some]
  · have hmax : DoubleListOf.Holds DoubleListOf.nextItem DoubleListOf.prevItem ⟨list.listHead, list.count.resetMax⟩
        mem₁ [] := ⟨hlist.dlist, hlist.nbItemAvailable_eq, hlist.length_lt⟩
    refine hmax.congr fun x hx => ?_
    rcases List.mem_cons.mp hx with rfl | hx
    · exact hs ▸ hlinks
    · cases hx
  · have happend : A.start.free ++ (A.start.held ++ A.start.queued) = A.items.reverse := List.append_nil _
    rw [happend]
    exact List.reverse_perm _
  · intro p hp
    rw [hstates p hp]
    exact (if_pos (List.mem_reverse.mpr hp)).symm

/-- One call. -/
theorem step_sim (hT : T.offset = 0) (hcap : capacity ≤ 2 ^ 31) {r : FifoOf × Mem} (hp : Partitioned A r.1 r.2 a)
    (op : Op) (hop : Legal a op) :
    Partitioned A (step T r op).1.1 (step T r op).1.2 (fifoStep A a op).1 ∧
      (fifoStep A a op).2 = (step T r op).2 := by
  obtain ⟨s, mem⟩ := r
  cases op with
  | getFreeInternalFifoItem =>
    obtain ⟨s', mem', hget, hp'⟩ := getFree_sim hT hcap hp
    simp only [step, hget]
    unfold fifoStep
    cases hf : a.free with
    | nil =>
      rw [hf] at hp'
      have ha : a = ⟨[], a.held, a.queued⟩ := by rw [← hf]
      rw [ha]
      exact ⟨hp', rfl⟩
    | cons p free =>
      rw [hf] at hp'
      exact ⟨hp', rfl⟩
  | insert p =>
    obtain ⟨s', mem', hinsert, hp'⟩ := insert_sim hT hp hop
    simp only [step, hinsert]
    exact ⟨hp', rfl⟩
  | waitForItem mustQuit ppItem =>
    cases ppItem with
    | false => exact ⟨hp, rfl⟩
    | true =>
      unfold fifoStep
      cases hq : a.queued with
      | nil =>
        simp only [step, waitForItem_nil hp hq]
        exact ⟨hp, rfl⟩
      | cons p queued =>
        obtain ⟨s', mem', hwait, hp'⟩ := waitForItem_cons hT mustQuit hp hq
        simp only [step, hwait]
        exact ⟨hp', rfl⟩
  | releaseInternalFifoItem p =>
    obtain ⟨s', mem', hrelease, hp'⟩ := release_sim hT hp hop
    simp only [step, hrelease]
    exact ⟨hp', rfl⟩
  | reset =>
    obtain ⟨s', mem', hreset, hp'⟩ := reset_sim hT hp
    simp only [step, hreset]
    exact ⟨hp', rfl⟩

/-- Up to 2^31 items none is lost and none is handed out twice. -/
theorem conserves (hT : T.offset = 0) (hcap : capacity ≤ 2 ^ 31) (A : FifoPlace T capacity) : Conserves A := by
  intro mem ops hlegal
  obtain ⟨hp, hout⟩ := Machine.sim_run (R := fun a r => Partitioned A r.1 r.2 a) (v := id)
    (fun a (r : FifoOf × Mem) op hr hop => step_sim hT hcap hr op hop) (create_partitioned hT A mem) hlegal
  rw [List.map_id] at hout
  exact ⟨hout.symm, hp⟩

theorem queueHead_twoItems : 16 + 16 ≤ 2 ^ 64 := by decide

/-- Two items that are nothing but a header. -/
def twoItems : FifoPlace ⟨32, 0, by decide, by decide⟩ 2 where
  queueHead := 16
  poolHead := 32
  poolItem := 64
  capacity_pos := by decide
  capacity_lt := by decide
  queueHead_le := queueHead_twoItems
  poolHead_le := by decide
  poolItem_pos := by decide
  poolItem_le := by decide
  heads_apart := by decide
  queueHead_apart := by decide
  poolHead_apart := by decide

theorem conserves_twoItems : Conserves twoItems := conserves rfl (by decide) twoItems

/-- With the flag to quit raised, waiting on an empty queue succeeds without an item. -/
theorem not_waitsExactly_twoItems : ¬ WaitsExactly twoItems := by
  intro hwaits
  obtain ⟨p, hwait⟩ := (hwaits (fun _ => 0) [] trivial (some true)).mpr rfl
  have hp := create_partitioned (T := ⟨32, 0, by decide, by decide⟩) rfl twoItems (fun _ => 0)
  simp only [Machine.run_nil, step, waitForItem_nil hp rfl] at hwait
  cases hwait

/-- With more than 2^31 items the first one that is asked for is lost: the counter looks negative. -/
theorem not_conserves_of_large (hT : T.offset = 0) (hcap : 2 ^ 31 < capacity) (A : FifoPlace T capacity) :
    ¬ Conserves A := by
  intro hconserves
  obtain ⟨hout, -⟩ := hconserves (fun _ => 0) [.getFreeInternalFifoItem] ⟨trivial, trivial⟩
  have hp := create_partitioned hT A fun _ => 0
  obtain ⟨pool, hpool, hholds⟩ := hp.pool
  have hitems : ∀ x ∈ A.start.free, x ∈ A.items := fun x hx => List.mem_reverse.mp hx
  obtain ⟨list, mem', hremove, hlist, -, -, -⟩ := SingleListOf.removeHead_spec (A := A.poolArena) hT
    hholds.listHead_eq hholds.list hitems
  have hlen : A.start.free.length = capacity := by
    rw [FifoPlace.start, List.length_reverse, FifoPlace.length_items]
  cases hfree : A.start.free with
  | nil =>
    rw [hfree, List.length_nil] at hlen
    omega
  | cons p free =>
    rw [hfree] at hremove hlist hitems hlen
    rw [List.length_cons] at hlen
    have hpos := A.poolArena.item_pos p (hitems p List.mem_cons_self)
    have hsign : list.count.nbItemAvailable &&& 0x80000000 ≠ 0 := by
      have hnb := hlist.nbItemAvailable_eq
      have hlt := A.capacity_lt
      rw [List.tail_cons] at hnb
      apply PoolOf.and_sign_ne_zero
      · omega
      · omega
    have hlost : (step T (A.create fun _ => 0) .getFreeInternalFifoItem).2 = .item 0 := by
      simp only [step, getFreeInternalFifoItem, hpool, PoolOf.getItem, hremove, List.head?_cons, Option.getD_some,
        if_neg hsign]
      rw [if_pos (Nat.ne_of_gt hpos)]
      split
      · rfl
      · rfl
    simp only [Machine.run_cons, Machine.run_nil, hlost, fifoStep, hfree] at hout
    have hzero := Out.item.inj (List.cons.inj hout).1
    omega

end FifoOf

end BofStd
