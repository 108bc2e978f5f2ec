import BofStd.BlockingCallsSpec
import BofStd.Proofs.PotProofs

/-!
# The event is set while there are elements in the pot

`Awake` is the invariant: a call that changes the number of elements in the pot signals the event again, `Reset`
excepted. The invariant of the pot itself says that `Get` succeeds exactly when the number is not zero.
-/

namespace BofStd

open Machine

namespace Pot

variable {s : Pot} {i j : Nat}

/-! ## A pot in which zero is the mark of a locked slot -/

/-- All the slots are marked, and stay so. -/
structure AllMarked (s : Pot) : Prop where
  magic : s.param.magicNumber = 4294967295
  inUse : ∀ i < s.capacity, s.inUse i = true

theorem AllMarked.magic_ne_zero (h : s.AllMarked) : s.param.magicNumber ≠ 0 := by
  rw [h.magic]
  exact Nat.succ_ne_zero _

theorem AllMarked.congr (h : s.AllMarked) {s' : Pot} (hparam : s'.param = s.param)
    (huse : ∀ j, s.inUse j = true → s'.inUse j = true) : s'.AllMarked := by
  constructor
  · rw [hparam]
    exact h.magic
  · intro i hi
    rw [capacity, hparam] at hi
    exact huse i (h.inUse i hi)

/-- Freeing marks as well. -/
theorem AllMarked.free_inUse (hm : s.param.magicNumber = 4294967295) (huse : s.inUse j = true) :
    (s.free i).inUse j = true := by
  have h0 : s.param.magicNumber ≠ 0 := by
    rw [hm]
    exact Nat.succ_ne_zero _
  have hparam : (s.free i).param = s.param := param_free
  rw [inUse_of_magic (hparam ▸ h0)]
  by_cases hj : j = i
  · right
    subst hj
    simp only [Pot.free, if_pos h0, setWord, Function.update_self, notMagic]
    rw [hm]
  · rw [inUse_of_magic h0] at huse
    simp only [Pot.free, if_pos h0, setWord, Function.update_of_ne hj, notMagic]
    exact huse

theorem AllMarked.foldl_free (h : s.AllMarked) (l : List Nat) : (l.foldl free s).AllMarked := by
  induction l generalizing s with
  | nil => exact h
  | cons i l ih => exact ih (h.congr param_free fun j hj => AllMarked.free_inUse h.magic hj)

theorem AllMarked.searchFree (h : s.AllMarked) (hpos : 0 < s.capacity) (n pData pLocked : Nat) :
    s.searchFree n pData pLocked = none := by
  induction n generalizing pData pLocked with
  | zero => rfl
  | succ n ih =>
    have hmarked : ∀ d < s.capacity,
        (decide ((s.storage d).word ≠ s.param.magicNumber) && decide ((s.storage d).word ≠ s.notMagic)) = false := by
      intro d hd
      have huse := (inUse_of_magic h.magic_ne_zero).mp (h.inUse d hd)
      rw [Bool.and_eq_false_iff, decide_eq_false_iff_not, decide_eq_false_iff_not, not_not, not_not]
      exact huse
    unfold Pot.searchFree
    by_cases hend : pData > s.capacity - 1
    · simp only [if_pos hend, if_pos h.magic_ne_zero, hmarked 0 hpos]
      exact ih _ _
    · simp only [if_neg hend, if_pos h.magic_ne_zero, hmarked pData (by omega)]
      exact ih _ _

theorem AllMarked.getElement (h : s.AllMarked) (lock : Bool) : s.getElement lock = (s, none) := by
  unfold Pot.getElement
  split
  · rename_i hlt
    rw [h.searchFree (Nat.zero_lt_of_lt hlt)]
  · rfl

theorem AllMarked.step (h : s.AllMarked) (op : Op) : (step s op).1.AllMarked := by
  cases op with
  | get =>
    simp only [Pot.step, h.getElement]
    exact h
  | lock =>
    simp only [Pot.step, lockElement, if_pos h.magic_ne_zero]
    exact h
  | unlock p =>
    simp only [Pot.step, unlock, if_pos h.magic_ne_zero]
    split
    · rename_i i _ _
      refine h.congr rfl fun j hj => ?_
      have hmark : s.setWord i s.param.magicNumber = s.mark false i i := by
        simp only [mark, if_pos h.magic_ne_zero]
        rfl
      rw [hmark, inUse_mark]
      split
      · rfl
      · exact hj
    · exact h
  | release p =>
    simp only [Pot.step, release]
    split
    · split
      · exact AllMarked.congr (s := { s with nbOut := s.nbOut - 1 }) ⟨h.magic, h.inUse⟩ param_free
          fun j hj => AllMarked.free_inUse h.magic hj
      · exact h
    · exact h
  | clearPot n =>
    simp only [Pot.step, clearPot]
    split
    · have hfree := h.foldl_free (List.range' n (s.capacity - n))
      exact ⟨hfree.magic, hfree.inUse⟩
    · exact h
  | reset =>
    have hstart : AllMarked { s with levelMax := 0, first := 0, nbOut := 0 } := ⟨h.magic, h.inUse⟩
    exact hstart.foldl_free (List.range' 0 (s.capacity - 0))
  | store i e =>
    refine h.congr rfl fun j hj => ?_
    rw [inUse_of_magic h.magic_ne_zero] at hj
    refine (inUse_of_magic (s := (Pot.step s (.store i e)).1) h.magic_ne_zero).mpr ?_
    simp only [Pot.step, store, if_pos h.magic_ne_zero, notMagic]
    by_cases hij : j = i
    · rw [hij, Function.update_self]
      exact hij ▸ hj
    · rw [Function.update_of_ne hij]
      exact hj

theorem allMarked_create {param : PotParam} (data : Nat → PotElement) (hm : param.magicNumber = 4294967295)
    (hc : param.potCapacity ≠ 0) : (create param data).AllMarked := by
  have h0 : param.magicNumber ≠ 0 := by
    rw [hm]
    exact Nat.succ_ne_zero _
  rw [create, if_neg hc, if_pos h0]
  refine ⟨hm, fun i _ => (inUse_of_magic h0).mpr (.inr ?_)⟩
  rw [notMagic, hm]

end Pot

namespace BlockingPot

variable {s : BlockingPot} {lock : Bool}

/-! ## What the calls do to the pot -/

@[simp] theorem signal_pot (s : BlockingPot) : s.signal.pot = s.pot := by
  unfold signal
  split <;> rfl

@[simp] theorem signal_blocking (s : BlockingPot) : s.signal.blocking = s.blocking := by
  unfold signal
  split <;> rfl

@[simp] theorem signalIfRoom_pot (s : BlockingPot) : s.signalIfRoom.pot = s.pot := by
  unfold signalIfRoom
  split
  · exact signal_pot s
  · rfl

@[simp] theorem signalIfRoom_blocking (s : BlockingPot) : s.signalIfRoom.blocking = s.blocking := by
  unfold signalIfRoom
  split
  · exact signal_blocking s
  · rfl

@[simp] theorem waitCanGet_pot (s : BlockingPot) : s.waitCanGet.1.pot = s.pot := by
  unfold waitCanGet
  split <;> rfl

@[simp] theorem waitCanGet_blocking (s : BlockingPot) : s.waitCanGet.1.blocking = s.blocking := by
  unfold waitCanGet
  split <;> rfl

/-- A pot that is empty fails the search as well. -/
theorem getElement_empty {p : Pot} (h : ¬ p.nbOut < p.capacity) : p.getElement lock = (p, none) := by
  unfold Pot.getElement
  exact if_neg h

theorem getLocked_pot (s : BlockingPot) (lock : Bool) :
    (s.getLocked lock).1.pot = (s.pot.getElement lock).1 ∧ (s.getLocked lock).1.blocking = s.blocking ∧
      (s.getLocked lock).2.2 = (s.pot.getElement lock).2 := by
  unfold getLocked
  split
  · exact ⟨signalIfRoom_pot _, signalIfRoom_blocking _, rfl⟩
  · rename_i hempty
    rw [getElement_empty hempty]
    exact ⟨rfl, rfl, rfl⟩

/-- The critical section ends with an empty pot only when it has changed nothing. -/
theorem getLocked_empty (h : (s.getLocked lock).2.1 = .empty) :
    ¬ s.pot.nbOut < s.pot.capacity ∧ (s.getLocked lock).1 = s := by
  unfold getLocked at h ⊢
  split at h
  · cases h
  · rename_i hempty
    rw [if_neg hempty]
    exact ⟨hempty, rfl⟩

/-- The loop keeps `P`, if the wait leads from `P` to `Q` and the critical section back from `Q` to `P`. -/
theorem retryGet_inv {P Q : BlockingPot → Prop} {rounds : Nat} {r : BlockingPot × Option Nat}
    (htimeout : ∀ s, P s → s.waitCanGet.2 ≠ .noError → P s.waitCanGet.1)
    (hwait : ∀ s, P s → s.waitCanGet.2 = .noError → Q s.waitCanGet.1)
    (hlocked : ∀ s, Q s → P (s.getLocked lock).1) (h : P s) (heq : retryGet lock rounds s = some r) : P r.1 := by
  induction rounds generalizing s with
  | zero => cases heq
  | succ rounds ih =>
    unfold retryGet at heq
    by_cases herr : s.waitCanGet.2 = .noError
    · have hP := hlocked _ (hwait s h herr)
      rw [if_pos herr] at heq
      dsimp only at heq
      split at heq
      · exact ih hP heq
      · cases heq
        exact hP
    · rw [if_neg herr] at heq
      cases heq
      exact htimeout s h herr

theorem step_some {op : Op} {r : BlockingPot × Pot.Out} (h : s.call op = some r) : (step s op).1 = r.1 := by
  unfold step
  rw [h]

/-- A call on the pot that returns. -/
theorem retryGet_pot {I : Pot → Prop} (hget : ∀ p : Pot, I p → I (p.getElement lock).1) {rounds : Nat}
    {r : BlockingPot × Option Nat} (h : I s.pot) (heq : retryGet lock rounds s = some r) :
    I r.1.pot ∧ r.1.blocking = s.blocking := by
  refine retryGet_inv (P := fun s' => I s'.pot ∧ s'.blocking = s.blocking)
    (Q := fun s' => I s'.pot ∧ s'.blocking = s.blocking) ?_ ?_ ?_ ⟨h, rfl⟩ heq
  · intro s' hs' _
    rw [waitCanGet_pot, waitCanGet_blocking]
    exact hs'
  · intro s' hs' _
    rw [waitCanGet_pot, waitCanGet_blocking]
    exact hs'
  · intro s' hs'
    obtain ⟨hpot, hblocking, -⟩ := getLocked_pot s' lock
    rw [hpot, hblocking]
    exact ⟨hget s'.pot hs'.1, hs'.2⟩

theorem getElement_pot {I : Pot → Prop} (hget : ∀ p : Pot, I p → I (p.getElement lock).1) {timed : Bool}
    {r : BlockingPot × Option Nat} (h : I s.pot) (heq : s.getElement lock timed = some r) :
    I r.1.pot ∧ r.1.blocking = s.blocking := by
  cases timed with
  | true => exact retryGet_pot hget h heq
  | false =>
    cases heq
    obtain ⟨hpot, hblocking, -⟩ := getLocked_pot s lock
    exact ⟨hpot ▸ hget s.pot h, hblocking⟩

/-- What the calls of the pot keep, the calls of the blocking pot keep. -/
theorem step_pot {I : Pot → Prop} (hget : ∀ (p : Pot) lock, I p → I (p.getElement lock).1)
    (hstep : ∀ (p : Pot) op, I p → I (p.step op).1) (h : I s.pot) (op : Op) :
    I (step s op).1.pot ∧ (step s op).1.blocking = s.blocking := by
  cases hcall : s.call op with
  | none =>
    unfold step
    rw [hcall]
    exact ⟨h, rfl⟩
  | some r =>
    rw [step_some hcall]
    cases op with
    | get timed =>
      obtain ⟨r', hr', rfl⟩ := Option.map_eq_some_iff.mp hcall
      exact getElement_pot (fun p hp => hget p false hp) h hr'
    | lock timed =>
      obtain ⟨r', hr', rfl⟩ := Option.map_eq_some_iff.mp hcall
      unfold lockElement at hr'
      split at hr'
      · cases hr'
        exact ⟨h, rfl⟩
      · exact getElement_pot (fun p hp => hget p true hp) h hr'
    | unlock p =>
      cases hcall
      exact ⟨hstep s.pot (.unlock p) h, rfl⟩
    | release p =>
      cases hcall
      simp only [release]
      split
      · rw [signal_pot, signal_blocking]
        exact ⟨hstep s.pot (.release p) h, rfl⟩
      · exact ⟨hstep s.pot (.release p) h, rfl⟩
    | clearPot n =>
      cases hcall
      simp only [clearPot]
      split
      · rw [signalIfRoom_pot, signalIfRoom_blocking]
        exact ⟨hstep s.pot (.clearPot n) h, rfl⟩
      · exact ⟨hstep s.pot (.clearPot n) h, rfl⟩
    | reset =>
      cases hcall
      exact ⟨hstep s.pot .reset h, rfl⟩
    | store i e =>
      cases hcall
      exact ⟨hstep s.pot (.store i e) h, rfl⟩

/-! ## The event -/

/-- The event is set while the pot has elements. -/
def Awake (s : BlockingPot) : Prop := s.pot.nbOut < s.pot.capacity → s.canGet = true

theorem signal_canGet (h : s.blocking = true) : s.signal.canGet = true := by
  unfold signal
  rw [if_pos h]

theorem awake_signalIfRoom (h : s.blocking = true) : s.signalIfRoom.Awake := by
  intro hroom
  rw [signalIfRoom_pot] at hroom
  unfold signalIfRoom
  rw [if_pos hroom]
  exact signal_canGet h

theorem waitCanGet_eq (h : s.blocking = true) :
    s.waitCanGet = ({ s with canGet := false }, if s.canGet then .noError else .etimedout) := by
  unfold waitCanGet waitForEvent
  rw [if_pos h]
  cases hevent : s.canGet <;> rfl

/-- A wait that times out changes nothing. -/
theorem waitCanGet_timeout (h : s.blocking = true) (herr : s.waitCanGet.2 ≠ .noError) : s.waitCanGet.1 = s := by
  rw [waitCanGet_eq h] at herr ⊢
  cases hevent : s.canGet with
  | false => rw [← hevent]
  | true => exact absurd (if_pos hevent) herr

/-- After the critical section the event is right, whatever it was before. -/
theorem awake_getLocked (h : s.blocking = true) (lock : Bool) : (s.getLocked lock).1.Awake := by
  unfold getLocked
  split
  · exact awake_signalIfRoom h
  · rename_i hempty
    intro hroom
    exact absurd hroom hempty

theorem Awake.getElement {timed : Bool} {r : BlockingPot × Option Nat} (h : s.Awake) (hblocking : s.blocking = true)
    (heq : s.getElement lock timed = some r) : r.1.Awake := by
  cases timed with
  | false =>
    cases heq
    exact awake_getLocked hblocking lock
  | true =>
    have hawake : r.1.Awake ∧ r.1.blocking = true := by
      refine retryGet_inv (P := fun s => s.Awake ∧ s.blocking = true) (Q := fun s => s.blocking = true)
        ?_ ?_ ?_ ⟨h, hblocking⟩ heq
      · intro s hs herr
        rw [waitCanGet_timeout hs.2 herr]
        exact hs
      · intro s hs _
        rw [waitCanGet_blocking]
        exact hs.2
      · intro s hs
        refine ⟨awake_getLocked hs lock, ?_⟩
        rw [(getLocked_pot s lock).2.1]
        exact hs
    exact hawake.1

/-- The number of elements out of the pot stays. -/
theorem Awake.congr (h : s.Awake) {p : Pot} (hnb : p.nbOut = s.pot.nbOut) (hparam : p.param = s.pot.param) :
    Awake { s with pot := p } := by
  intro hroom
  apply h
  have hcap : p.capacity = s.pot.capacity := congrArg PotParam.potCapacity hparam
  rw [← hnb, ← hcap]
  exact hroom

theorem unlock_counts (p : Pot) (q : Option Int) :
    (p.unlock q).1.nbOut = p.nbOut ∧ (p.unlock q).1.param = p.param := by
  unfold Pot.unlock
  split
  · dsimp only
    split <;> exact ⟨rfl, rfl⟩
  · exact ⟨rfl, rfl⟩

theorem release_fails {p : Pot} {q : Option Int} (h : (p.release q).2 ≠ .noError) : (p.release q).1 = p := by
  unfold Pot.release at h ⊢
  split
  · rename_i hq hi
    rw [hq, hi] at h
    dsimp only at h ⊢
    split
    · rename_i hout
      rw [if_pos hout] at h
      exact absurd rfl h
    · rfl
  · rfl

theorem clearPot_fails {p : Pot} {n : Nat} (h : (p.clearPot n).2 ≠ .noError) : (p.clearPot n).1 = p := by
  unfold Pot.clearPot at h ⊢
  split
  · rename_i hn
    rw [if_pos hn] at h
    exact absurd rfl h
  · rfl

/-- What a pot with an event keeps. -/
structure Good (p : Pot) : Prop where
  inv : p.Inv
  magic : p.param.magicNumber ≠ 4294967295
  pos : 0 < p.capacity

theorem Good.getElement {p : Pot} (h : Good p) (lock : Bool) : Good (p.getElement lock).1 := by
  have hparam : (p.getElement lock).1.param = p.param := Pot.getElement_param lock
  refine ⟨(Pot.getElement_spec h.inv lock).1, ?_, ?_⟩
  · rw [hparam]
    exact h.magic
  · rw [Pot.capacity, hparam]
    exact h.pos

theorem Good.step {p : Pot} (h : Good p) (op : Pot.Op) : Good (p.step op).1 := by
  have hparam : (p.step op).1.param = p.param := Pot.step_param h.magic op
  refine ⟨(Pot.step_spec h.inv h.magic op).1, ?_, ?_⟩
  · rw [hparam]
    exact h.magic
  · rw [Pot.capacity, hparam]
    exact h.pos

theorem Good.reset_room {p : Pot} (h : Good p) : p.reset.nbOut < p.reset.capacity := by
  have hparam : p.reset.param = p.param := Pot.step_param h.magic .reset
  have hnb : p.reset.nbOut = 0 := Pot.nbOut_foldl_free _
  rw [hnb, Pot.capacity, hparam]
  exact h.pos

/-- One call keeps the event right exactly if it is not a `Reset` that finds it clear. -/
theorem Awake.step_iff (h : s.Awake) (hblocking : s.blocking = true) (hgood : Good s.pot) (op : Op) :
    (step s op).1.Awake ↔ ResetSignaled s op := by
  cases hcall : s.call op with
  | none =>
    have hstep : (step s op).1 = s := by
      unfold step
      rw [hcall]
    rw [hstep]
    refine iff_of_true h ?_
    cases op with
    | reset => cases hcall
    | _ => trivial
  | some r =>
    rw [step_some hcall]
    cases op with
    | get timed =>
      obtain ⟨r', hr', rfl⟩ := Option.map_eq_some_iff.mp hcall
      exact iff_of_true (h.getElement hblocking hr') trivial
    | lock timed =>
      obtain ⟨r', hr', rfl⟩ := Option.map_eq_some_iff.mp hcall
      refine iff_of_true ?_ trivial
      unfold lockElement at hr'
      split at hr'
      · cases hr'
        exact h
      · exact h.getElement hblocking hr'
    | unlock p =>
      cases hcall
      exact iff_of_true (h.congr (unlock_counts s.pot p).1 (unlock_counts s.pot p).2) trivial
    | release p =>
      cases hcall
      refine iff_of_true ?_ trivial
      simp only [release]
      split
      · intro _
        exact signal_canGet hblocking
      · rename_i herr
        rw [release_fails herr]
        exact h
    | clearPot n =>
      cases hcall
      refine iff_of_true ?_ trivial
      simp only [clearPot]
      split
      · exact awake_signalIfRoom hblocking
      · rename_i herr
        rw [clearPot_fails herr]
        exact h
    | reset =>
      cases hcall
      constructor
      · intro hawake
        exact .inl (hawake hgood.reset_room)
      · rintro (hset | hnot | hmagic)
        · intro _
          exact hset
        · exact absurd (hnot.symm.trans hblocking) Bool.false_ne_true
        · exact absurd hmagic hgood.magic
    | store i e =>
      cases hcall
      exact iff_of_true (h.congr rfl rfl) trivial

/-! ## Agreement -/

theorem getElement_untimed (s : BlockingPot) :
    s.getElement lock false = some ((s.getLocked lock).1, (s.pot.getElement lock).2) := by
  rw [← (getLocked_pot s lock).2.2]
  rfl

/-- The first round decides if the wait succeeds and the pot is not empty. -/
theorem retryGet_room {rounds : Nat} (hwait : s.waitCanGet.2 = .noError) (hroom : s.pot.nbOut < s.pot.capacity) :
    ∃ s', retryGet lock (rounds + 1) s = some (s', (s.pot.getElement lock).2) := by
  have hlocked := (getLocked_pot s.waitCanGet.1 lock).2.2
  have herr : (s.waitCanGet.1.getLocked lock).2.1 = .noError := by
    unfold getLocked
    rw [waitCanGet_pot, if_pos hroom]
  rw [waitCanGet_pot] at hlocked
  refine ⟨(s.waitCanGet.1.getLocked lock).1, ?_⟩
  unfold retryGet
  rw [if_pos hwait]
  dsimp only
  rw [herr, if_neg fun hretry => BofErr.noConfusion hretry.2, hlocked]

theorem agrees_of_awake (h : s.Awake) (hblocking : s.blocking = true) : s.Agrees := by
  intro i s' hget
  rw [getElement_untimed] at hget
  obtain ⟨-, hslot⟩ := Prod.mk.inj (Option.some.inj hget)
  have hroom : s.pot.nbOut < s.pot.capacity := by
    by_contra hempty
    rw [getElement_empty hempty] at hslot
    cases hslot
  have hwait : s.waitCanGet.2 = .noError := by
    rw [waitCanGet_eq hblocking]
    exact if_pos (h hroom)
  rw [← hslot]
  exact retryGet_room hwait hroom

/-- If the event is clear while there are elements in the pot, the wait times out. -/
theorem awake_of_agrees (h : s.Agrees) (hblocking : s.blocking = true) (hinv : s.pot.Inv) : s.Awake := by
  intro hroom
  by_contra hclear
  obtain ⟨-, hsome, -⟩ := Pot.getElement_spec hinv false
  have hslot := hsome.mpr (hinv.freeSlots_nonempty.mpr hroom)
  obtain ⟨i, hi⟩ := Option.isSome_iff_exists.mp hslot
  obtain ⟨s', hs'⟩ := h i (s.getLocked false).1 (by rw [getElement_untimed, hi])
  have hwait : s.waitCanGet.2 = .etimedout := by
    rw [waitCanGet_eq hblocking]
    exact if_neg hclear
  have htimed : s.getElement false true = some (s.waitCanGet.1, none) := by
    have hunfold : s.getElement false true = if s.waitCanGet.2 = .noError then _ else _ := rfl
    rw [hunfold, hwait]
    rfl
  rw [htimed] at hs'
  cases hs'

/-- A pot that hands out nothing agrees. -/
theorem agrees_of_none (h : (s.pot.getElement false).2 = none) : s.Agrees := by
  intro i s' hget
  rw [getElement_untimed, h] at hget
  cases hget

/-- Without an event there is nothing to wait for. -/
theorem agrees_of_not_blocking (h : s.blocking = false) : s.Agrees := by
  have hnot : ¬ s.blocking = true := Bool.eq_false_iff.mp h
  intro i s' hget
  rw [getElement_untimed] at hget
  obtain ⟨-, hslot⟩ := Prod.mk.inj (Option.some.inj hget)
  have hroom : s.pot.nbOut < s.pot.capacity := by
    by_contra hempty
    rw [getElement_empty hempty] at hslot
    cases hslot
  have hwait : s.waitCanGet.2 = .noError := by
    unfold waitCanGet
    rw [if_neg hnot]
  rw [← hslot]
  exact retryGet_room hwait hroom

/-- A loop that retries has cleared the event, so that two rounds are enough. -/
theorem retryGet_isSome (s : BlockingPot) (lock : Bool) : (retryGet lock 2 s).isSome := by
  by_cases hwait : s.waitCanGet.2 = .noError
  · have hunfold : retryGet lock 2 s = if s.waitCanGet.2 = .noError then
        (if (s.waitCanGet.1.getLocked lock).1.blocking ∧ (s.waitCanGet.1.getLocked lock).2.1 = .empty then
          retryGet lock 1 (s.waitCanGet.1.getLocked lock).1 else
            some ((s.waitCanGet.1.getLocked lock).1, (s.waitCanGet.1.getLocked lock).2.2)) else _ := rfl
    rw [hunfold, if_pos hwait]
    split
    · rename_i hretry
      obtain ⟨hblocking, hempty⟩ := hretry
      obtain ⟨-, hsame⟩ := getLocked_empty hempty
      rw [hsame] at hblocking ⊢
      have hblocking' : s.blocking = true := by
        rw [waitCanGet_blocking] at hblocking
        exact hblocking
      have htimeout : s.waitCanGet.1.waitCanGet.2 = .etimedout := by
        rw [waitCanGet_eq hblocking, waitCanGet_eq hblocking']
        rfl
      unfold retryGet
      rw [htimeout]
      rfl
    · rfl
  · have hunfold : retryGet lock 2 s = if s.waitCanGet.2 = .noError then _ else some (s.waitCanGet.1, none) := rfl
    rw [hunfold, if_neg hwait]
    rfl

/-! ## Runs -/

section Runs

variable {I : Pot → Prop} {b : Bool}

/-- What holds of the pot and of `Blocking_B` all along a run. -/
theorem along_step (hget : ∀ (p : Pot) lock, I p → I (p.getElement lock).1)
    (hstep : ∀ (p : Pot) op, I p → I (p.step op).1) (s : BlockingPot) (op : Op)
    (h : I s.pot ∧ s.blocking = b) : I (step s op).1.pot ∧ (step s op).1.blocking = b := by
  obtain ⟨hI, hsame⟩ := step_pot hget hstep h.1 op
  exact ⟨hI, hsame.trans h.2⟩

/-- Where every such state agrees and meets the condition, so does every run. -/
theorem getsAgree_of_along {param : PotParam} {data : Nat → PotElement}
    (hget : ∀ (p : Pot) lock, I p → I (p.getElement lock).1) (hstep : ∀ (p : Pot) op, I p → I (p.step op).1)
    (h : I (create param data).pot ∧ (create param data).blocking = b)
    (hagrees : ∀ s : BlockingPot, I s.pot → s.blocking = b → s.Agrees)
    (hcond : ∀ s : BlockingPot, I s.pot → s.blocking = b → ∀ op, ResetSignaled s op) (ops : List Op) :
    GetsAgree param data ops ↔ Meets step ResetSignaled (create param data) ops := by
  have halong := along_step (b := b) hget hstep
  refine iff_of_true ?_ ?_
  · intro ops' _
    have hrun := inv_run (fun s op hs _ => halong s op hs) h (meets_of_forall (fun _ _ => True.intro) _ ops')
    exact hagrees _ hrun.1 hrun.2
  · exact meets_of_inv (P := fun s => I s.pot ∧ s.blocking = b) (fun s op hs => hcond s hs.1 hs.2 op) halong
      h ops

end Runs

theorem good_create {param : PotParam} (data : Nat → PotElement) (hc : param.potCapacity ≠ 0)
    (hm : param.magicNumber ≠ 4294967295) : Good (Pot.create param data) := by
  obtain ⟨hinv, hmagic⟩ := Pot.create_inv param data (.inl hm)
  refine ⟨hinv, hmagic, ?_⟩
  unfold Pot.create
  rw [if_neg hc]
  split <;> exact Nat.pos_of_ne_zero hc

/-- `Get` with a timeout agrees with `Get` without one along a run exactly if every `Reset` finds the event set. -/
theorem getsAgree_iff (param : PotParam) (data : Nat → PotElement) (ops : List Op) :
    GetsAgree param data ops ↔ Meets step ResetSignaled (create param data) ops := by
  by_cases hc : param.potCapacity = 0
  · -- without a capacity there is no event
    have hcreate : create param data = ⟨Pot.create param data, false, false⟩ := if_pos hc
    refine getsAgree_of_along (I := fun _ => True) (fun _ _ _ => trivial) (fun _ _ _ => trivial)
      ⟨trivial, congrArg BlockingPot.blocking hcreate⟩ (fun s _ hs => agrees_of_not_blocking hs) ?_ ops
    intro s _ hs op
    cases op with
    | reset => exact .inr (.inl hs)
    | _ => trivial
  · have hcreate : create param data = ⟨Pot.create param data, true, true⟩ := if_neg hc
    by_cases hm : param.magicNumber = 4294967295
    · -- nothing is ever handed out
      refine getsAgree_of_along (I := Pot.AllMarked) ?_ (fun p op hp => hp.step op)
        ⟨hcreate ▸ Pot.allMarked_create data hm hc, congrArg BlockingPot.blocking hcreate⟩ ?_ ?_ ops
      · intro p lock hp
        rw [hp.getElement]
        exact hp
      · intro s hs _
        exact agrees_of_none (congrArg Prod.snd (hs.getElement false))
      · intro s hs _ op
        cases op with
        | reset => exact .inr (.inr hs.magic)
        | _ => trivial
    · have hgood : Good (create param data).pot ∧ (create param data).blocking = true := by
        rw [hcreate]
        exact ⟨good_create data hc hm, rfl⟩
      have halong := along_step (I := Good) (b := true) (fun _ lock hp => hp.getElement lock) (fun _ op hp => hp.step op)
      have hawake : (create param data).Awake := by
        rw [hcreate]
        exact fun _ => rfl
      have hiff : ∀ ops', (run step (create param data) ops').1.Agrees ↔
          ((Good (run step (create param data) ops').1.pot ∧ (run step (create param data) ops').1.blocking = true) ∧
            (run step (create param data) ops').1.Awake) := by
        intro ops'
        obtain ⟨hg, hb⟩ := inv_run (fun s op hs _ => halong s op hs) hgood
          (meets_of_forall (fun _ _ => True.intro) _ ops')
        constructor
        · intro hagrees
          exact ⟨⟨hg, hb⟩, awake_of_agrees hagrees hb hg.inv⟩
        · rintro ⟨-, hstate⟩
          exact agrees_of_awake hstate hb
      unfold GetsAgree
      simp only [hiff]
      refine forall_prefix_iff_meets (P := fun s : BlockingPot => (Good s.pot ∧ s.blocking = true) ∧ s.Awake) ?_ ⟨hgood, hawake⟩
        (meets_of_forall (fun _ _ => True.intro) _ ops)
      rintro s op ⟨hs, hstate⟩ -
      rw [and_iff_right (halong s op hs)]
      exact hstate.step_iff hs.2 hs.1 op

/-- A pot of one element that was handed out and put back by `Reset`: the event stays clear, so that a `Get` that
waits times out. -/
theorem not_getsAgree_reset :
    ¬ GetsAgree ⟨0, false, 1, by decide, by decide⟩ (fun _ => ⟨0, []⟩) [.get true, .reset] := by
  intro hagrees
  obtain ⟨s', hs'⟩ := hagrees _ (List.prefix_refl _) 0 _ rfl
  have hslot : (BlockingPot.getElement _ false true).map Prod.snd = some (some 0) := congrArg (Option.map Prod.snd) hs'
  exact absurd hslot (by decide)

end BlockingPot

end BofStd
