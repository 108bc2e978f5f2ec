import BofStd.SharedPool
import BofStd.Lib.Threads
import BofStd.Proofs.ListOfProofs

/-!
# No interleaving gives an item to two threads

What one access of one thread does is stated in `Outcome`: how the free list changes, which items are free or
owned afterwards, how far the counter lags behind, and that the links and states of the items of the other
threads stay as they are. `access_spec` proves it for each access; `Outcome.threadOk` carries the snapshots
that other threads have taken over it: as long as the tag is the same nothing has been removed, so that a link
read before is still the link of an item of the list.
-/

namespace BofStd.SharedPool

open Linked

variable {P : SharedPool} {m m' : Shared} {free free' lost : List Nat} {th th' u : Thread} {x : Nat} {missed failed : Nat}

/-! ## What a thread owns and owes -/

/-- The item that a call has in its hands: removed and not yet handed out, or not yet inserted. -/
def transit : Pc → List Nat
  | .decrement x | .takeState x | .readNb x | .readMin x _ | .storeMin x _ => [x]
  | .freeState x | .readOld x | .writeNext x _ | .casInsert x _ => [x]
  | _ => []

/-- The items of a thread. -/
def owned (th : Thread) : List Nat := th.held ++ transit th.pc

/-- A removed item that is still counted. -/
def overcount : Pc → Nat
  | .decrement _ => 1
  | _ => 0

/-- An inserted item that is not counted yet. -/
def undercount : Pc → Nat
  | .reread _ _ | .increment => 1
  | _ => 0

/-- What the values that a call has read so far say about the memory. -/
def PcOk (P : SharedPool) (m : Shared) (free : List Nat) : Pc → Prop
  | .readHead tag => tag ≤ m.tag
  | .readNext tag old => tag ≤ m.tag ∧ (tag = m.tag → old ≠ P.listHead → old ∈ free)
  | .casRemove tag old new =>
    tag ≤ m.tag ∧ (tag = m.tag → old ≠ P.listHead → old ∈ free ∧ m.next old = new) ∧
      (tag = m.tag → old = P.listHead → new ≠ P.listHead → free ≠ [])
  | .decrement x | .takeState x | .readOld x | .writeNext x _ => m.state x = .free
  | .readNb x | .readMin x _ | .storeMin x _ | .freeState x => m.state x = .taken
  | .casInsert x temp => m.state x = .free ∧ m.next x = temp
  | _ => True

/-- A thread and its items. -/
structure ThreadOk (P : SharedPool) (m : Shared) (free : List Nat) (th : Thread) : Prop where
  pc : PcOk P m free th.pc
  held : ∀ x ∈ th.held, m.state x = .taken

/-- The memory as a thread finds it. -/
structure Ready (P : SharedPool) (m : Shared) (free : List Nat) (th : Thread) : Prop where
  chain : FreeList P m free
  items : ∀ x ∈ free ++ owned th, x ∈ P.items
  nodup : (free ++ owned th).Nodup
  free_state : ∀ x ∈ free, m.state x = .free
  nb_lt : m.nbItemAvailable < 2 ^ 32
  ok : ThreadOk P m free th

/-- The memory as it leaves it: `lost` are items that nobody has afterwards, `missed` is the number of
insertions that are never counted, `failed` the number of releases that return false. -/
structure Outcome (P : SharedPool) (m m' : Shared) (free free' : List Nat) (th th' : Thread) (lost : List Nat)
    (missed failed : Nat) : Prop where
  chain : FreeList P m' free'
  free_state : ∀ x ∈ free', m'.state x = .free
  nb_lt : m'.nbItemAvailable < 2 ^ 32
  ok : ThreadOk P m' free' th'
  places : ∀ x, free'.count x + ((owned th').count x + lost.count x) = free.count x + (owned th).count x
  balance : (m'.nbItemAvailable + undercount th'.pc + missed + free.length + overcount th.pc) % 2 ^ 32 =
    (m.nbItemAvailable + undercount th.pc + free'.length + overcount th'.pc) % 2 ^ 32
  returned : m'.returned.count false = m.returned.count false + failed
  tag_le : m.tag ≤ m'.tag
  /-- nothing is removed under the same tag -/
  keep : m'.tag = m.tag → ∀ x ∈ free, x ∈ free' ∧ m'.next x = m.next x
  others : ∀ x ∉ owned th, m'.next x = m.next x ∧ m'.state x = m.state x

/-- What a step has to do: nothing goes wrong exactly when it is smooth. -/
def Does (P : SharedPool) (m : Shared) (free : List Nat) (th : Thread) (r : Shared × Thread) (smooth : Prop) : Prop :=
  ∃ free' lost missed failed, Outcome P m r.1 free free' th r.2 lost missed failed ∧
    (smooth → lost = [] ∧ missed = 0 ∧ failed = 0) ∧ (¬ smooth → lost ≠ [] ∨ failed ≠ 0)

/-- The memory stays valid for the other threads. -/
theorem Outcome.threadOk (ho : Outcome P m m' free free' th th' lost missed failed) (hu : ThreadOk P m free u)
    (hdisj : ∀ x ∈ owned u, x ∉ owned th) : ThreadOk P m' free' u := by
  obtain ⟨hpc, hheld⟩ := hu
  have hstate : ∀ x ∈ owned u, m'.state x = m.state x := fun x hx => (ho.others x (hdisj x hx)).2
  have hnext : ∀ x ∈ owned u, m'.next x = m.next x := fun x hx => (ho.others x (hdisj x hx)).1
  have htag := ho.tag_le
  obtain ⟨pc, held⟩ := u
  constructor
  · cases pc with
    | readHead tag => exact Nat.le_trans hpc htag
    | readNext tag old =>
      obtain ⟨hle, hold⟩ := hpc
      refine ⟨Nat.le_trans hle htag, ?_⟩
      intro heq hne
      have hsame : m'.tag = m.tag := by omega
      exact (ho.keep hsame old (hold (heq.trans hsame) hne)).1
    | casRemove tag old new =>
      obtain ⟨hle, hold, hempty⟩ := hpc
      refine ⟨Nat.le_trans hle htag, ?_, ?_⟩
      · intro heq hne
        have hsame : m'.tag = m.tag := by omega
        obtain ⟨hmem, hnew⟩ := hold (heq.trans hsame) hne
        obtain ⟨hmem', hnext'⟩ := ho.keep hsame old hmem
        exact ⟨hmem', hnext'.trans hnew⟩
      · intro heq hhead hnew hnil
        have hsame : m'.tag = m.tag := by omega
        obtain ⟨y, hy⟩ := List.exists_mem_of_ne_nil _ (hempty (heq.trans hsame) hhead hnew)
        have hy' := (ho.keep hsame y hy).1
        rw [hnil] at hy'
        exact List.not_mem_nil hy'
    | decrement x | takeState x | readOld x | writeNext x _ | readNb x | readMin x _ | storeMin x _ | freeState x =>
      exact (hstate x (List.mem_append_right _ List.mem_cons_self)).trans hpc
    | casInsert x temp =>
      have hx : x ∈ owned ⟨.casInsert x temp, held⟩ := List.mem_append_right _ List.mem_cons_self
      exact ⟨(hstate x hx).trans hpc.1, (hnext x hx).trans hpc.2⟩
    | _ => trivial
  · intro x hx
    exact (hstate x (List.mem_append_left _ hx)).trans (hheld x hx)

theorem Does.of_smooth {smooth : Prop} (hs : smooth) (ho : Outcome P m m' free free' th th' [] 0 0) :
    Does P m free th (m', th') smooth :=
  ⟨free', [], 0, 0, ho, fun _ => ⟨rfl, rfl, rfl⟩, fun hn => absurd hs hn⟩

theorem Does.of_not_smooth {smooth : Prop} (hs : ¬ smooth)
    (ho : Outcome P m m' free free' th th' lost missed failed) (hbad : lost ≠ [] ∨ failed ≠ 0) :
    Does P m free th (m', th') smooth :=
  ⟨free', lost, missed, failed, ho, fun hsm => absurd hsm hs, fun _ => hbad⟩

/-! ## Accesses that change no link, state or count -/

/-- The list, the states and the count are the same. -/
structure SameList (m m' : Shared) : Prop where
  head : m'.head = m.head
  tag : m'.tag = m.tag
  next : m'.next = m.next
  state : m'.state = m.state
  nb : m'.nbItemAvailable = m.nbItemAvailable

theorem SameList.refl (m : Shared) : SameList m m := ⟨rfl, rfl, rfl, rfl, rfl⟩

theorem Ready.same (h : Ready P m free th) (hm : SameList m m') (hok : ThreadOk P m' free th')
    (hplaces : ∀ x, (owned th').count x + lost.count x = (owned th).count x)
    (hbalance : undercount th'.pc + missed + overcount th.pc = undercount th.pc + overcount th'.pc)
    (hreturned : m'.returned.count false = m.returned.count false + failed) :
    Outcome P m m' free free th th' lost missed failed where
  chain := by
    unfold FreeList
    rw [hm.head, hm.next]
    exact h.chain
  free_state x hx := by
    rw [hm.state]
    exact h.free_state x hx
  nb_lt := by
    rw [hm.nb]
    exact h.nb_lt
  ok := hok
  places x := by rw [hplaces x]
  balance := by
    rw [hm.nb]
    congr 1
    omega
  returned := hreturned
  tag_le := Nat.le_of_eq hm.tag.symm
  keep _ x hx := ⟨hx, by rw [hm.next]⟩
  others x _ := ⟨by rw [hm.next], by rw [hm.state]⟩

/-- Only the place of the thread changes. -/
theorem Ready.goto {pc' : Pc} (h : Ready P m free th) (hm : SameList m m') (hret : m'.returned = m.returned)
    (hpc : PcOk P m' free pc') (htransit : transit pc' = transit th.pc) (hover : overcount pc' = overcount th.pc)
    (hunder : undercount pc' = undercount th.pc) : Outcome P m m' free free th ⟨pc', th.held⟩ [] 0 0 := by
  refine h.same hm ⟨hpc, ?_⟩ ?_ ?_ ?_
  · intro x hx
    rw [hm.state]
    exact h.ok.held x hx
  · intro x
    unfold owned
    rw [htransit]
    rfl
  · simp only [hover, hunder]
    omega
  · rw [hret, Nat.add_zero]

/-- `GetItem` returns the item. -/
theorem Ready.gotItem (h : Ready P m free th) (hm : SameList m m') (hret : m'.returned = m.returned)
    (htransit : transit th.pc = [x]) (hstate : m.state x = .taken) (hover : overcount th.pc = 0)
    (hunder : undercount th.pc = 0) : Outcome P m m' free free th ⟨.idle, x :: th.held⟩ [] 0 0 := by
  refine h.same hm ⟨trivial, ?_⟩ ?_ ?_ ?_
  · rw [hm.state]
    exact List.forall_mem_cons.mpr ⟨hstate, h.ok.held⟩
  · intro y
    unfold owned
    rw [htransit]
    simp only [transit, List.append_nil, List.count_nil, Nat.add_zero, List.count_append, List.count_cons]
    omega
  · rw [hover, hunder]
    rfl
  · rw [hret, Nat.add_zero]

/-- `ReleaseItem` returns. -/
theorem Ready.return {result : Bool} (h : Ready P m free th) (htransit : transit th.pc = []) (hover : overcount th.pc = 0)
    (hmissed : missed = undercount th.pc) (hfailed : failed = if result = true then 0 else 1) :
    Outcome P m (m.return result) free free th ⟨.idle, th.held⟩ [] missed failed := by
  refine h.same ⟨rfl, rfl, rfl, rfl, rfl⟩ ⟨trivial, h.ok.held⟩ ?_ ?_ ?_
  · intro x
    unfold owned
    rw [htransit]
    rfl
  · rw [hover, hmissed]
    simp only [undercount, overcount]
    omega
  · rw [hfailed]
    unfold Shared.return
    cases result
    · simp
    · simp

/-! ## The free list -/

theorem Ready.ne_listHead (h : Ready P m free th) (hx : x ∈ free ++ owned th) : x ≠ P.listHead := by
  rintro rfl
  exact P.listHead_notMem (h.items _ hx)

/-- The head is the first free item. -/
theorem Ready.head_iff (h : Ready P m free th) : m.head = P.listHead ↔ free = [] := by
  have hchain := h.chain
  unfold FreeList at hchain
  cases free with
  | nil => exact iff_of_true (link_eq_none.mp hchain) rfl
  | cons y free =>
    obtain ⟨hy, hne⟩ := link_eq_some.mp hchain.1
    refine iff_of_false ?_ (List.cons_ne_nil _ _)
    rw [hy]
    exact hne

theorem Ready.head_mem (h : Ready P m free th) (hne : m.head ≠ P.listHead) : m.head ∈ free := by
  have hchain := h.chain
  unfold FreeList at hchain
  cases free with
  | nil => exact absurd (link_eq_none.mp hchain) hne
  | cons y free =>
    rw [(link_eq_some.mp hchain.1).1]
    exact List.mem_cons_self

theorem Ready.owned_not_free (h : Ready P m free th) (hx : x ∈ owned th) : x ∉ free := by
  obtain ⟨-, -, hdisj⟩ := List.nodup_append.mp h.nodup
  intro hf
  exact hdisj x hf x hx rfl

/-- The compare-exchange of `RemoveHead` on an item. -/
theorem Ready.remove {old new : Nat} (h : Ready P m free th) (hpc : th.pc = .casRemove m.tag old new) (hhead : m.head = old)
    (hne : old ≠ P.listHead) :
    Outcome P m { m with head := new, tag := m.tag + 1 } free free.tail th ⟨.decrement old, th.held⟩ [] 0 0 := by
  have hok := h.ok.pc
  rw [hpc] at hok
  obtain ⟨-, hold, -⟩ := hok
  obtain ⟨hmem, hnew⟩ := hold rfl hne
  have hchain := h.chain
  unfold FreeList at hchain
  cases free with
  | nil => exact absurd hmem List.not_mem_nil
  | cons y free =>
    have hy : old = y := hhead.symm.trans (link_eq_some.mp hchain.1).1
    subst hy
    have htail := hchain.2
    simp only [hnew] at htail
    have hfree : m.state old = .free := h.free_state old List.mem_cons_self
    exact {
      chain := htail
      free_state := fun x hx => h.free_state x (List.mem_cons_of_mem _ hx)
      nb_lt := h.nb_lt
      ok := ⟨hfree, h.ok.held⟩
      places := by
        intro x
        unfold owned
        rw [hpc]
        simp only [transit, List.tail_cons, List.count_append, List.count_cons, List.count_nil]
        omega
      balance := by
        simp only [hpc, undercount, overcount, List.tail_cons, List.length_cons]
        congr 1
      returned := rfl
      tag_le := Nat.le_succ _
      keep := fun hsame => absurd hsame (Nat.succ_ne_self _)
      others := fun _ _ => ⟨rfl, rfl⟩ }

/-- The compare-exchange of `RemoveHead` on an empty list. -/
theorem Ready.removeNone {new : Nat} (h : Ready P m free th) (hpc : th.pc = .casRemove m.tag P.listHead new)
    (hhead : m.head = P.listHead) :
    Outcome P m { m with head := new, tag := m.tag + 1 } free free th ⟨.idle, th.held⟩ [] 0 0 := by
  have hok := h.ok.pc
  rw [hpc] at hok
  have hnil := h.head_iff.mp hhead
  have hnew : new = P.listHead := by
    by_contra hne
    exact hok.2.2 rfl rfl hne hnil
  subst hnil
  exact {
    chain := by
      unfold FreeList
      rw [hnew]
      exact link_self _
    free_state := h.free_state
    nb_lt := h.nb_lt
    ok := ⟨trivial, h.ok.held⟩
    places := by
      intro x
      unfold owned
      rw [hpc]
      rfl
    balance := by
      simp only [hpc, undercount, overcount]
    returned := rfl
    tag_le := Nat.le_succ _
    keep := fun hsame => absurd hsame (Nat.succ_ne_self _)
    others := fun _ _ => ⟨rfl, rfl⟩ }

/-- The compare-exchange of `InsertHead`. -/
theorem Ready.insert {item temp : Nat} (h : Ready P m free th) (hpc : th.pc = .casInsert item temp) (hhead : m.head = temp) :
    Outcome P m { m with head := item } free (item :: free) th ⟨.reread item temp, th.held⟩ [] 0 0 := by
  have hok := h.ok.pc
  rw [hpc] at hok
  have howned : item ∈ owned th := by
    unfold owned
    rw [hpc]
    exact List.mem_append_right _ List.mem_cons_self
  have hne := h.ne_listHead (List.mem_append_right _ howned)
  have hchain := h.chain
  unfold FreeList at hchain
  exact {
    chain := by
      unfold FreeList
      simp only [link_of_ne hne]
      refine hchain.push ?_ (fun _ _ => rfl)
      rw [hok.2, hhead]
    free_state := List.forall_mem_cons.mpr ⟨hok.1, h.free_state⟩
    nb_lt := h.nb_lt
    ok := ⟨trivial, h.ok.held⟩
    places := by
      intro x
      unfold owned
      rw [hpc]
      simp only [transit, List.append_nil, List.count_append, List.count_cons, List.count_nil]
      omega
    balance := by
      simp only [hpc, undercount, overcount, List.length_cons]
      congr 1
      omega
    returned := rfl
    tag_le := Nat.le_refl _
    keep := fun _ x hx => ⟨List.mem_cons_of_mem _ hx, rfl⟩
    others := fun _ _ => ⟨rfl, rfl⟩ }

/-- `InsertHead` writes the link of its item. -/
theorem Ready.writeNext {item temp : Nat} (h : Ready P m free th) (hpc : th.pc = .writeNext item temp) :
    Outcome P m { m with next := Function.update m.next item temp } free free th ⟨.casInsert item temp, th.held⟩ [] 0
      0 := by
  have hok := h.ok.pc
  rw [hpc] at hok
  have howned : item ∈ owned th := by
    unfold owned
    rw [hpc]
    exact List.mem_append_right _ List.mem_cons_self
  have hnot := h.owned_not_free howned
  have hnext : ∀ x ∈ free, Function.update m.next item temp x = m.next x := by
    intro x hx
    apply Function.update_of_ne
    rintro rfl
    exact hnot hx
  have hchain := h.chain
  unfold FreeList at hchain
  exact {
    chain := hchain.congr fun x hx => congrArg _ (hnext x hx)
    free_state := h.free_state
    nb_lt := h.nb_lt
    ok := ⟨⟨hok, Function.update_self _ _ _⟩, h.ok.held⟩
    places := by
      intro x
      unfold owned
      rw [hpc]
      rfl
    balance := by
      simp only [hpc, undercount, overcount]
    returned := rfl
    tag_le := Nat.le_refl _
    keep := fun _ x hx => ⟨hx, hnext x hx⟩
    others := by
      intro x hx
      refine ⟨Function.update_of_ne ?_ _ _, rfl⟩
      rintro rfl
      exact hx howned }

/-- The exchange of `State_E`, by a thread that has the item in its hands. -/
theorem Ready.setState {pc' : Pc} {st : ItemState} (h : Ready P m free th) (htransit : transit th.pc = [x])
    (htransit' : transit pc' = [x]) (hpc : PcOk P { m with state := Function.update m.state x st } free pc')
    (hover : overcount pc' = overcount th.pc) (hunder : undercount pc' = undercount th.pc) :
    Outcome P m { m with state := Function.update m.state x st } free free th ⟨pc', th.held⟩ [] 0 0 := by
  have howned : x ∈ owned th := by
    unfold owned
    rw [htransit]
    exact List.mem_append_right _ List.mem_cons_self
  have hnot := h.owned_not_free howned
  have hheld : x ∉ th.held := by
    have hnd := (List.nodup_append.mp h.nodup).2.1
    unfold owned at hnd
    rw [htransit] at hnd
    obtain ⟨-, -, hdisj⟩ := List.nodup_append.mp hnd
    intro hx
    exact hdisj x hx x List.mem_cons_self rfl
  have hstate : ∀ y, y ≠ x → Function.update m.state x st y = m.state y := fun y hy =>
    Function.update_of_ne hy _ _
  exact {
    chain := h.chain
    free_state := by
      intro y hy
      simp only [hstate y (fun he => hnot (he ▸ hy))]
      exact h.free_state y hy
    nb_lt := h.nb_lt
    ok := by
      refine ⟨hpc, fun y hy => ?_⟩
      simp only [hstate y (fun he => hheld (he ▸ hy))]
      exact h.ok.held y hy
    places := by
      intro y
      unfold owned
      rw [htransit, htransit']
      rfl
    balance := by simp only [hover, hunder, Nat.add_zero]
    returned := rfl
    tag_le := Nat.le_refl _
    keep := fun _ y hy => ⟨hy, rfl⟩
    others := by
      intro y hy
      exact ⟨rfl, hstate y fun he => hy (he ▸ howned)⟩ }

/-- The counter is set to a value that agrees with the change of what is owed. -/
theorem Ready.setCount {pc' : Pc} {nb : Nat} (h : Ready P m free th) (hnb : nb < 2 ^ 32) (hpc : PcOk P m free pc')
    (htransit : transit pc' = transit th.pc)
    (hbalance : (nb + undercount pc' + overcount th.pc) % 2 ^ 32 =
      (m.nbItemAvailable + undercount th.pc + overcount pc') % 2 ^ 32) :
    Outcome P m { m with nbItemAvailable := nb } free free th ⟨pc', th.held⟩ [] 0 0 where
  chain := h.chain
  free_state := h.free_state
  nb_lt := hnb
  ok := by
    refine ⟨?_, h.ok.held⟩
    cases pc' <;> exact hpc
  places x := by
    unfold owned
    rw [htransit]
    rfl
  balance := by
    simp only
    omega
  returned := rfl
  tag_le := Nat.le_refl _
  keep _ x hx := ⟨hx, rfl⟩
  others _ _ := ⟨rfl, rfl⟩

/-! ## Every access -/

/-- What one access does. -/
theorem access_spec (h : Ready P m free th) (spurious : Bool) :
    Does P m free th (P.access m th spurious) (SmoothAt P m (.access spurious) th.pc) := by
  have hok := h.ok.pc
  obtain ⟨pc, held⟩ := th
  cases pc with
  | idle => exact .of_smooth trivial (h.goto (.refl m) rfl trivial rfl rfl rfl)
  | readTag => exact .of_smooth trivial (h.goto (.refl m) rfl (Nat.le_refl m.tag) rfl rfl rfl)
  | readHead tag =>
    have hpc : PcOk P m free (.readNext tag m.head) := ⟨hok, fun _ hne => h.head_mem hne⟩
    exact .of_smooth trivial (h.goto (.refl m) rfl hpc rfl rfl rfl)
  | readNext tag old =>
    obtain ⟨hle, hold⟩ := hok
    have hpc : PcOk P m free (.casRemove tag old (if old = P.listHead then m.head else m.next old)) := by
      refine ⟨hle, ?_, ?_⟩
      · intro heq hne
        rw [if_neg hne]
        exact ⟨hold heq hne, rfl⟩
      · intro _ hhead hne hnil
        rw [if_pos hhead] at hne
        exact hne (h.head_iff.mpr hnil)
    exact .of_smooth trivial (h.goto (.refl m) rfl hpc rfl rfl rfl)
  | casRemove tag old new =>
    unfold access
    by_cases hcas : m.head = old ∧ m.tag = tag
    · simp only [if_pos hcas]
      obtain ⟨hhead, rfl⟩ := hcas
      by_cases hne : old ≠ P.listHead
      · rw [if_pos hne]
        exact .of_smooth trivial (h.remove rfl hhead hne)
      · rw [if_neg hne]
        rw [ne_eq, not_not] at hne
        subst hne
        exact .of_smooth trivial (h.removeNone rfl hhead)
    · simp only [if_neg hcas]
      exact .of_smooth trivial (h.goto (.refl m) rfl trivial rfl rfl rfl)
  | decrement x =>
    refine .of_smooth trivial (h.setCount (Nat.mod_lt _ (by decide)) hok rfl ?_)
    have hlt := h.nb_lt
    simp only [undercount, overcount]
    omega
  | takeState x =>
    unfold access
    have hfree : m.state x = .free := hok
    simp only [hfree, if_true]
    exact .of_smooth trivial (h.setState rfl rfl (Function.update_self _ _ _) rfl rfl)
  | readNb x =>
    unfold access
    by_cases hnb : m.nbItemAvailable &&& 0x80000000 = 0
    · simp only [if_pos hnb]
      exact .of_smooth hnb (h.goto (.refl m) rfl hok rfl rfl rfl)
    · simp only [if_neg hnb]
      -- the item is in nobody's hands any more
      have hplaces : ∀ y, (owned ⟨.idle, held⟩).count y + [x].count y = (owned ⟨.readNb x, held⟩).count y := by
        intro y
        simp only [owned, transit, List.append_nil, List.count_append]
      have ho : Outcome P m m free free ⟨.readNb x, held⟩ ⟨.idle, held⟩ [x] 0 0 :=
        h.same (.refl m) ⟨trivial, h.ok.held⟩ hplaces rfl rfl
      exact .of_not_smooth hnb ho (.inl (List.cons_ne_nil _ _))
  | readMin x nb =>
    unfold access
    by_cases hmin : nb < m.nbMinPoolItemAvailable
    · simp only [if_pos hmin]
      exact .of_smooth trivial (h.goto (.refl m) rfl hok rfl rfl rfl)
    · simp only [if_neg hmin]
      exact .of_smooth trivial (h.gotItem (.refl m) rfl rfl hok rfl rfl)
  | storeMin x nb => exact .of_smooth trivial (h.gotItem ⟨rfl, rfl, rfl, rfl, rfl⟩ rfl rfl hok rfl rfl)
  | freeState x =>
    unfold access
    have htaken : m.state x = .taken := hok
    simp only [htaken, if_true]
    exact .of_smooth trivial (h.setState rfl rfl (Function.update_self _ _ _) rfl rfl)
  | readOld x => exact .of_smooth trivial (h.goto (.refl m) rfl hok rfl rfl rfl)
  | writeNext x temp => exact .of_smooth trivial (h.writeNext rfl)
  | casInsert x temp =>
    unfold access
    by_cases hcas : m.head = temp ∧ spurious = false
    · simp only [if_pos hcas]
      exact .of_smooth trivial (h.insert rfl hcas.1)
    · simp only [if_neg hcas]
      exact .of_smooth trivial (h.goto (.refl m) rfl hok.1 rfl rfl rfl)
  | reread x temp =>
    unfold access
    by_cases hread : temp ≠ m.head
    · simp only [if_pos hread]
      exact .of_smooth hread (h.goto (.refl m) rfl trivial rfl rfl rfl)
    · simp only [if_neg hread]
      exact .of_not_smooth hread (h.return rfl rfl rfl rfl) (.inr Nat.one_ne_zero)
  | increment =>
    refine .of_smooth trivial (h.setCount (Nat.mod_lt _ (by decide)) trivial rfl ?_)
    simp only [undercount, overcount]
    omega
  | compareNb => exact .of_smooth trivial (h.goto (.refl m) rfl trivial rfl rfl rfl)
  | compareMax nb =>
    unfold access
    by_cases hmax : nb > m.nbMaxItemAvailable
    · simp only [if_pos hmax]
      exact .of_smooth trivial (h.goto (.refl m) rfl trivial rfl rfl rfl)
    · simp only [if_neg hmax]
      exact .of_smooth trivial (h.goto (.refl m) rfl trivial rfl rfl rfl)
  | loadNb => exact .of_smooth trivial (h.goto (.refl m) rfl trivial rfl rfl rfl)
  | storeMax nb => exact .of_smooth trivial (h.goto ⟨rfl, rfl, rfl, rfl, rfl⟩ rfl trivial rfl rfl rfl)
  | readCount =>
    unfold access
    by_cases hcount : m.nbItemAvailable ≤ P.items.length
    · simp only [decide_eq_true hcount]
      exact .of_smooth hcount (h.return rfl rfl rfl rfl)
    · simp only [decide_eq_false hcount]
      exact .of_not_smooth hcount (h.return rfl rfl rfl rfl) (.inr Nat.one_ne_zero)

/-- What a thread does. -/
theorem act_spec (h : Ready P m free th) (a : Act) : Does P m free th (P.act m th a) (SmoothAt P m a th.pc) := by
  cases a with
  | access spurious => exact access_spec h spurious
  | getItem =>
    obtain ⟨pc, held⟩ := th
    cases pc with
    | idle => exact .of_smooth trivial (h.goto (.refl m) rfl trivial rfl rfl rfl)
    | _ => exact .of_smooth trivial (h.goto (.refl m) rfl h.ok.pc rfl rfl rfl)
  | releaseItem item =>
    obtain ⟨pc, held⟩ := th
    cases pc with
    | idle =>
      unfold act
      by_cases hheld : item ∈ held
      · simp only [if_pos hheld]
        refine .of_smooth trivial (h.same (.refl m) ⟨h.ok.held item hheld, ?_⟩ ?_ rfl rfl)
        · intro x hx
          exact h.ok.held x (List.mem_of_mem_erase hx)
        · intro x
          have hcount := (List.perm_cons_erase hheld).count_eq x
          simp only [List.count_cons] at hcount
          simp only [owned, transit, List.append_nil, List.count_append, List.count_cons, List.count_nil]
          omega
      · simp only [if_neg hheld]
        exact .of_smooth trivial (h.goto (.refl m) rfl trivial rfl rfl rfl)
    | _ => exact .of_smooth trivial (h.goto (.refl m) rfl h.ok.pc rfl rfl rfl)

/-! ## All threads -/

section System

variable {τ : Type} [Fintype τ] [DecidableEq τ] {s : System τ}

/-- Every item is free, owned by one thread or lost, and the counter is the length of the free list up to what
is owed or was missed. -/
structure Inv (P : SharedPool) (s : System τ) (free lost : List Nat) (missed failed : Nat) : Prop where
  chain : FreeList P s.shared free
  free_state : ∀ x ∈ free, s.shared.state x = .free
  nb_lt : s.shared.nbItemAvailable < 2 ^ 32
  ok : ∀ t, ThreadOk P s.shared free (s.threads t)
  places : ∀ x, free.count x + (∑ t, (owned (s.threads t)).count x + lost.count x) = P.items.count x
  balance : (s.shared.nbItemAvailable + ∑ t, undercount (s.threads t).pc + missed) % 2 ^ 32 =
    (free.length + ∑ t, overcount (s.threads t).pc) % 2 ^ 32
  returned : s.shared.returned.count false = failed

omit [DecidableEq τ] in
/-- No item is in two places. -/
theorem Inv.count_le (h : Inv P s free lost missed failed) (x : Nat) :
    free.count x + (∑ t, (owned (s.threads t)).count x + lost.count x) ≤ 1 := by
  rw [h.places x]
  exact List.nodup_iff_count_le_one.mp P.items_nodup x

theorem Inv.ready (h : Inv P s free lost missed failed) (t : τ) : Ready P s.shared free (s.threads t) := by
  have hcount : ∀ x, (free ++ owned (s.threads t)).count x ≤ P.items.count x := by
    intro x
    obtain ⟨rest, hsum, -, -⟩ := Threads.sum_update (fun th => (owned th).count x) s.threads t
    have hplaces := h.places x
    rw [List.count_append]
    omega
  refine ⟨h.chain, ?_, ?_, h.free_state, h.nb_lt, h.ok t⟩
  · intro x hx
    exact List.count_pos_iff.mp (Nat.lt_of_lt_of_le (List.count_pos_iff.mpr hx) (hcount x))
  · rw [List.nodup_iff_count_le_one]
    intro x
    exact Nat.le_trans (hcount x) (List.nodup_iff_count_le_one.mp P.items_nodup x)

/-- Two threads own no item together. -/
theorem Inv.disjoint (h : Inv P s free lost missed failed) {t u : τ} (hne : u ≠ t) :
    ∀ x ∈ owned (s.threads u), x ∉ owned (s.threads t) := by
  intro x hu ht
  obtain ⟨rest, hsum, hle, -⟩ := Threads.sum_update (fun th => (owned th).count x) s.threads t
  have hone := h.count_le x
  have hu' := List.count_pos_iff.mpr hu
  have ht' := List.count_pos_iff.mpr ht
  have hrest := hle u hne
  omega

/-- One step of one thread. -/
theorem Inv.step (h : Inv P s free lost missed failed) (i : τ × Act) :
    ∃ free' lost' missed' failed', Inv P (P.step s i).1 free' lost' missed' failed' ∧
      (Smooth P s i → lost' = lost ∧ missed' = missed ∧ failed' = failed) ∧
      (¬ Smooth P s i → lost' ≠ [] ∨ failed' ≠ 0) ∧ (lost ≠ [] ∨ failed ≠ 0 → lost' ≠ [] ∨ failed' ≠ 0) := by
  obtain ⟨t, a⟩ := i
  obtain ⟨free', dl, dm, df, ho, hsmooth, hwrong⟩ := act_spec (h.ready t) a
  refine ⟨free', dl ++ lost, dm + missed, df + failed, ⟨ho.chain, ho.free_state, ho.nb_lt, ?_, ?_, ?_, ?_⟩, ?_, ?_, ?_⟩
  · intro u
    by_cases hu : u = t
    · subst hu
      simp only [SharedPool.step, Function.update_self]
      exact ho.ok
    · simp only [SharedPool.step, Function.update_of_ne hu]
      exact ho.threadOk (h.ok u) (h.disjoint hu)
  · intro x
    obtain ⟨rest, hsum, -, hsum'⟩ := Threads.sum_update (fun th => (owned th).count x) s.threads t
    have hplaces := h.places x
    have hmove := ho.places x
    simp only [SharedPool.step, hsum', List.count_append]
    omega
  · obtain ⟨rest, hsum, -, hsum'⟩ := Threads.sum_update (fun th => undercount th.pc) s.threads t
    obtain ⟨rest₂, hsum₂, -, hsum₂'⟩ := Threads.sum_update (fun th => overcount th.pc) s.threads t
    have hbalance := h.balance
    have hmove := ho.balance
    simp only [SharedPool.step, hsum', hsum₂']
    omega
  · have hreturned := ho.returned
    rw [h.returned] at hreturned
    simp only [SharedPool.step, hreturned]
    omega
  · intro hs
    obtain ⟨rfl, rfl, rfl⟩ := hsmooth hs
    exact ⟨rfl, Nat.zero_add _, Nat.zero_add _⟩
  · intro hs
    rcases hwrong hs with hne | hne
    · exact .inl (List.append_ne_nil_of_left_ne_nil hne _)
    · exact .inr (by omega)
  · rintro (hne | hne)
    · exact .inl (List.append_ne_nil_of_right_ne_nil _ hne)
    · exact .inr (by omega)

/-- A run: something is lost or refused exactly when some step is not smooth. -/
theorem Inv.run (h : Inv P s free lost missed failed) (acts : List (τ × Act)) :
    ∃ free' lost' missed' failed', Inv P (Machine.run P.step s acts).1 free' lost' missed' failed' ∧
      (Machine.Meets P.step (Smooth P) s acts → lost' = lost ∧ missed' = missed ∧ failed' = failed) ∧
      (¬ Machine.Meets P.step (Smooth P) s acts → lost' ≠ [] ∨ failed' ≠ 0) ∧
      (lost ≠ [] ∨ failed ≠ 0 → lost' ≠ [] ∨ failed' ≠ 0) := by
  induction acts generalizing s free lost missed failed with
  | nil => exact ⟨free, lost, missed, failed, h, fun _ => ⟨rfl, rfl, rfl⟩, fun hn => absurd trivial hn, id⟩
  | cons i acts ih =>
    obtain ⟨free₁, lost₁, missed₁, failed₁, h₁, hsmooth₁, hwrong₁, hstay₁⟩ := h.step i
    obtain ⟨free', lost', missed', failed', h', hsmooth, hwrong, hstay⟩ := ih h₁
    refine ⟨free', lost', missed', failed', h', ?_, ?_, fun hbad => hstay (hstay₁ hbad)⟩
    · rintro ⟨hi, hrest⟩
      obtain ⟨rfl, rfl, rfl⟩ := hsmooth₁ hi
      exact hsmooth hrest
    · intro hn
      by_cases hi : Smooth P s i
      · exact hwrong fun hrest => hn ⟨hi, hrest⟩
      · exact hstay (hwrong₁ hi)

/-- The constructor inserts the items one after the other. -/
theorem foldl_insertHead {ps l : List Nat} (hchain : FreeList P m l) (hnb : m.nbItemAvailable = l.length)
    (hnd : (ps.reverse ++ l).Nodup) (hhead : P.listHead ∉ ps) (hlt : (ps.reverse ++ l).length < 2 ^ 32) :
    FreeList P (ps.foldl insertHead m) (ps.reverse ++ l) ∧
      (ps.foldl insertHead m).nbItemAvailable = (ps.reverse ++ l).length ∧
      (ps.foldl insertHead m).state = m.state ∧ (ps.foldl insertHead m).returned = m.returned := by
  induction ps generalizing m l with
  | nil => exact ⟨hchain, hnb, rfl, rfl⟩
  | cons p ps ih =>
    rw [List.reverse_cons, List.append_assoc, List.singleton_append] at hnd hlt ⊢
    rw [List.mem_cons, not_or] at hhead
    have hnew : p ∉ l := (List.nodup_cons.mp (List.nodup_append.mp hnd).2.1).1
    have hlen : l.length + 1 < 2 ^ 32 := by
      rw [List.length_append, List.length_cons] at hlt
      omega
    have hnb' : (insertHead m p).nbItemAvailable = (p :: l).length := by
      simp only [insertHead, hnb, Nat.mod_eq_of_lt hlen, List.length_cons]
    have hchain' : FreeList P (insertHead m p) (p :: l) := by
      unfold FreeList at hchain ⊢
      simp only [insertHead, link_of_ne (Ne.symm hhead.1)]
      refine hchain.push ?_ ?_
      · rw [Function.update_self]
      · intro x hx
        have hne : x ≠ p := by
          rintro rfl
          exact hnew hx
        rw [Function.update_of_ne hne]
    exact ih hchain' hnb' hnd hhead.2 hlt

omit [DecidableEq τ] in
theorem inv_create (P : SharedPool) : Inv P (create P : System τ) P.items.reverse [] 0 0 := by
  have hnd : (P.items.reverse ++ []).Nodup := by
    rw [List.append_nil]
    exact List.nodup_reverse.mpr P.items_nodup
  have hlen : (P.items.reverse ++ []).length < 2 ^ 32 := by
    rw [List.append_nil, List.length_reverse]
    exact P.length_lt
  obtain ⟨hchain, hnb, hstate, hreturned⟩ := foldl_insertHead (P := P) (l := [])
    (m := ⟨P.listHead, 0, fun _ => 0, fun _ => .free, 0, 0, P.items.length, []⟩) (link_self _) rfl hnd
    P.listHead_notMem hlen
  rw [List.append_nil] at hchain hnb hlen
  refine ⟨hchain, ?_, ?_, ?_, ?_, ?_, ?_⟩
  · intro x _
    simp only [create, hstate]
  · simp only [create, hnb]
    exact hlen
  · intro t
    exact ⟨trivial, fun x hx => nomatch hx⟩
  · intro x
    simp only [create, owned, transit, List.append_nil, List.count_nil, Finset.sum_const_zero, Nat.add_zero,
      List.count_reverse]
  · simp only [create, hnb, undercount, overcount, Finset.sum_const_zero, Nat.add_zero]
  · simp only [create, hreturned, List.count_nil]

/-! ## Reachable states -/

theorem Inv.exclusive (h : Inv P s free lost missed failed) : Exclusive P s := by
  refine ⟨free, h.chain, ?_, ?_⟩
  · intro t x hx hf
    exact (h.ready t).owned_not_free (List.mem_append_left _ hx) hf
  · intro t u hne x ht hu
    exact h.disjoint hne x (List.mem_append_left _ ht) (List.mem_append_left _ hu)

omit [Fintype τ] [DecidableEq τ] in
/-- Between the calls a thread owns what it holds. -/
theorem Quiet.owned (hq : Quiet s) (t : τ) : owned (s.threads t) = (s.threads t).held := by
  unfold SharedPool.owned
  rw [hq t]
  exact List.append_nil _

omit [DecidableEq τ] in
theorem Inv.length_lt (h : Inv P s free lost missed failed) : free.length < 2 ^ 32 := by
  have hnd : free.Nodup := by
    rw [List.nodup_iff_count_le_one]
    intro x
    have := h.count_le x
    omega
  have hsub : free ⊆ P.items := by
    intro x hx
    have hpos := List.count_pos_iff.mpr hx
    have hplaces := h.places x
    exact List.count_pos_iff.mp (by omega)
  exact Nat.lt_of_le_of_lt (List.subperm_of_subset hnd hsub).length_le P.length_lt

omit [DecidableEq τ] in
/-- When nothing was lost or refused, everything is in its place between the calls. -/
theorem Inv.settled (h : Inv P s free [] 0 0) (hq : Quiet s) : Settled P s := by
  refine ⟨free, h.chain, ?_, ?_, ?_⟩
  · intro x hx
    by_cases hf : x ∈ free
    · exact .inl hf
    · right
      have hplaces := h.places x
      have hone := List.count_pos_iff.mpr hx
      rw [List.count_eq_zero_of_not_mem hf, List.count_nil] at hplaces
      have hsum : ∑ t, (owned (s.threads t)).count x ≠ 0 := by omega
      obtain ⟨t, -, ht⟩ := Finset.exists_ne_zero_of_sum_ne_zero hsum
      refine ⟨t, ?_⟩
      rw [← hq.owned t]
      exact List.count_pos_iff.mp (Nat.pos_of_ne_zero ht)
  · have hunder : ∑ t, undercount (s.threads t).pc = 0 := by
      refine Finset.sum_eq_zero fun t _ => ?_
      rw [hq t]
      rfl
    have hover : ∑ t, overcount (s.threads t).pc = 0 := by
      refine Finset.sum_eq_zero fun t _ => ?_
      rw [hq t]
      rfl
    have hbalance := h.balance
    have hnb := h.nb_lt
    have hlen := h.length_lt
    rw [hunder, hover] at hbalance
    omega
  · intro result hr
    cases result with
    | true => rfl
    | false => exact absurd hr (List.count_eq_zero.mp h.returned)

/-- When everything is in its place, nothing was lost or refused. -/
theorem Inv.of_settled (h : Inv P s free lost missed failed) (hq : Quiet s) (hs : Settled P s) :
    lost = [] ∧ failed = 0 := by
  obtain ⟨free', hchain, hplaces, -, hreturned⟩ := hs
  obtain rfl := h.chain.unique hchain
  constructor
  · rw [List.eq_nil_iff_forall_not_mem]
    intro x hx
    have hlost := List.count_pos_iff.mpr hx
    have hone := h.count_le x
    have hitem : x ∈ P.items := by
      have hcount := h.places x
      exact List.count_pos_iff.mp (by omega)
    rcases hplaces x hitem with hf | ⟨t, ht⟩
    · have := List.count_pos_iff.mpr hf
      omega
    · obtain ⟨rest, hsum, -, -⟩ := Threads.sum_update (fun th => (owned th).count x) s.threads t
      rw [← hq.owned t] at ht
      have := List.count_pos_iff.mpr ht
      omega
  · rw [← h.returned, List.count_eq_zero]
    intro hfalse
    exact Bool.false_ne_true (hreturned false hfalse)

/-- In every reachable state no item has two holders, and between the calls the items are accounted for exactly
when every step of the run was smooth. -/
theorem accounted_iff (P : SharedPool) (acts : List (τ × Act)) :
    Accounted P (Machine.run P.step (create P) acts).1 ↔
      (Quiet (Machine.run P.step (create P) acts).1 → Machine.Meets P.step (Smooth P) (create P) acts) := by
  obtain ⟨free, lost, missed, failed, h, hsmooth, hwrong, -⟩ := (inv_create P).run acts
  constructor
  · rintro ⟨-, hsettled⟩ hq
    by_contra hn
    obtain ⟨hlost, hfailed⟩ := h.of_settled hq (hsettled hq)
    rcases hwrong hn with hbad | hbad
    · exact hbad hlost
    · exact hbad hfailed
  · intro hmeets
    refine ⟨h.exclusive, fun hq => ?_⟩
    obtain ⟨rfl, rfl, rfl⟩ := hsmooth (hmeets hq)
    exact h.settled hq

end System

/-- A pool with one item. -/
def oneItem : SharedPool := ⟨16, [32], by decide, by decide, by decide, by decide⟩

/-- The first thread gets the item and releases it, the second one gets it before the first one has read the
head again. -/
def overtaken : List (Bool × Act) :=
  (true, .getItem) :: List.replicate 9 (true, .access false) ++ (true, .releaseItem 32) ::
    List.replicate 4 (true, .access false) ++ (false, .getItem) :: List.replicate 7 (false, .access false) ++
      [(true, .access false)]

/-- The item is lost, the counter is -1, and the release has returned false. -/
theorem not_accounted_overtaken :
    let s := (Machine.run oneItem.step (create oneItem) overtaken).1
    Quiet s ∧ s.shared.head = oneItem.listHead ∧ (∀ t, (s.threads t).held = []) ∧
      s.shared.nbItemAvailable = 2 ^ 32 - 1 ∧ s.shared.returned = [false] ∧ ¬ Accounted oneItem s := by
  intro s
  have hquiet : ∀ t, (s.threads t).pc = .idle := by decide
  have hreturned : s.shared.returned = [false] := by decide
  refine ⟨hquiet, by decide, by decide, by decide, hreturned, ?_⟩
  rintro ⟨-, hsettled⟩
  obtain ⟨-, -, -, -, htrue⟩ := hsettled hquiet
  rw [hreturned] at htrue
  exact Bool.false_ne_true (htrue false List.mem_cons_self)

end BofStd.SharedPool
