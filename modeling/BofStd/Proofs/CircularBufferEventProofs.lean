import BofStd.BlockingCallsSpec
import BofStd.Proofs.CircularBufferProofs

/-!
# The events follow the buffer

`Signaled` says that an event is set whenever a call that waits for it would succeed after the wait. Every call
that succeeds and changes the counters signals the events again, and a call that fails finds its own condition
false, so that only the calls of `RaisesEvents` can break it.
-/

namespace BofStd.CircularBuffer

open Machine

variable {α : Type*} {s s' : CircularBuffer α} {x : α}

/-- There is room for a push. -/
def CanWrite (s : CircularBuffer α) : Prop :=
  (s.mCircularBufferParam_X.Overwrite_B = true ∨ s.mNbElementInBuffer_U32 < s.capacity) ∧
    s.mpLock_U8 s.mPushIndex_U32 = false

/-- There is an element to pop. -/
def CanRead (s : CircularBuffer α) : Prop := s.nbReady ≠ 0 ∧ s.mpLock_U8 s.mPopIndex_U32 = false

/-- A buffer with slots and events. -/
structure Blocking (s : CircularBuffer α) : Prop where
  blocking : s.mCircularBufferParam_X.Blocking_B = true
  pos : 0 < s.capacity

/-- The write event is set when there is room, and the read event when there is an element that the count does not
show. -/
structure Signaled (s : CircularBuffer α) : Prop where
  write : CanWrite s → s.mCanWriteEvent_X = true
  read : CanRead s → s.mNbElementInBuffer_U32 = 0 → s.mCanReadEvent_X = true

theorem Blocking.congr (h : Blocking s) (hparam : s'.mCircularBufferParam_X = s.mCircularBufferParam_X) :
    Blocking s' := by
  constructor
  · rw [hparam]
    exact h.blocking
  · unfold capacity
    rw [hparam]
    exact h.pos

/-! ## What the critical sections do -/

theorem pushLocked_param (s : CircularBuffer α) (x : α) :
    (s.pushLocked x).1.mCircularBufferParam_X = s.mCircularBufferParam_X := by
  unfold pushLocked
  split
  · split
    · obtain ⟨level, hlevel⟩ := updateLevelMax_eq (s.storeElement x).clipToCapacity
      dsimp only
      rw [hlevel]
      unfold clipToCapacity
      split <;> rfl
    · rfl
  · rfl

theorem pushLocked_out (s : CircularBuffer α) (x : α) :
    (s.pushLocked x).2.err = .noError ∧ CanWrite s ∨
      (s.pushLocked x).2.err ≠ .noError ∧ ¬ CanWrite s ∧
        (s.pushLocked x).1 = { s with mOverflow_B := true } := by
  unfold pushLocked CanWrite
  by_cases hroom : s.mCircularBufferParam_X.Overwrite_B = true ∨ s.mNbElementInBuffer_U32 < s.capacity
  · rw [if_pos hroom]
    by_cases hlock : s.mpLock_U8 s.mPushIndex_U32 = false
    · rw [if_pos hlock]
      exact .inl ⟨rfl, hroom, hlock⟩
    · rw [if_neg hlock]
      exact .inr ⟨nofun, fun h => hlock h.2, rfl⟩
  · rw [if_neg hroom]
    exact .inr ⟨nofun, fun h => hroom h.1, rfl⟩

/-- The events are not looked at. -/
theorem pushLocked_setWrite (s : CircularBuffer α) (x : α) (event : Bool) :
    ({ s with mCanWriteEvent_X := event }.pushLocked x).2 = (s.pushLocked x).2 := by
  have hcap : ({ s with mCanWriteEvent_X := event } : CircularBuffer α).capacity = s.capacity := rfl
  unfold pushLocked
  rw [hcap]
  dsimp only
  split
  · split <;> rfl
  · rfl

theorem popLocked_param (s : CircularBuffer α) :
    s.popLocked.1.mCircularBufferParam_X = s.mCircularBufferParam_X := by
  unfold popLocked
  split
  · split
    · dsimp only
      split <;> rfl
    · rfl
  · rfl

theorem popLocked_out (s : CircularBuffer α) :
    s.popLocked.2.err = .noError ∧ CanRead s ∨
      s.popLocked.2.err ≠ .noError ∧ ¬ CanRead s ∧ s.popLocked.1 = s := by
  unfold popLocked CanRead
  by_cases hready : s.nbReady ≠ 0
  · rw [if_pos hready]
    by_cases hlock : s.mpLock_U8 s.mPopIndex_U32 = false
    · rw [if_pos hlock]
      exact .inl ⟨rfl, hready, hlock⟩
    · rw [if_neg hlock]
      exact .inr ⟨nofun, fun h => hlock h.2, rfl⟩
  · rw [if_neg hready]
    exact .inr ⟨nofun, fun h => hready h.1, rfl⟩

theorem popLocked_setRead (s : CircularBuffer α) (event : Bool) :
    ({ s with mCanReadEvent_X := event } : CircularBuffer α).popLocked.2 = s.popLocked.2 := by
  have hready : ({ s with mCanReadEvent_X := event } : CircularBuffer α).nbReady = s.nbReady := rfl
  unfold popLocked
  rw [hready]
  dsimp only
  split
  · split <;> rfl
  · rfl

/-! ## Signaling -/

theorem signalReadWrite_events (h : Blocking s) : ∃ rd wr,
    s.signalReadWrite = ({ s with mCanReadEvent_X := rd, mCanWriteEvent_X := wr }, .noError) ∧
      (CanRead s → rd = true) ∧ (CanWrite s → wr = true) := by
  unfold signalReadWrite
  rw [if_pos h.blocking]
  by_cases hread : CanRead s
  · have hr : s.nbReady ≠ 0 ∧ s.mpLock_U8 s.mPopIndex_U32 = false := hread
    dsimp only
    rw [if_pos hr]
    by_cases hwrite : CanWrite s
    · exact ⟨_, _, congrArg (·, BofErr.noError) (if_pos hwrite), fun _ => rfl, fun _ => rfl⟩
    · exact ⟨_, _, congrArg (·, BofErr.noError) (if_neg hwrite), fun _ => rfl, fun hw => absurd hw hwrite⟩
  · have hr : ¬ (s.nbReady ≠ 0 ∧ s.mpLock_U8 s.mPopIndex_U32 = false) := hread
    dsimp only
    rw [if_neg hr]
    by_cases hwrite : CanWrite s
    · exact ⟨_, _, congrArg (·, BofErr.noError) (if_pos hwrite), fun hr' => absurd hr' hread, fun _ => rfl⟩
    · exact ⟨_, _, congrArg (·, BofErr.noError) (if_neg hwrite), fun hr' => absurd hr' hread,
        fun hw => absurd hw hwrite⟩

theorem signaled_signalReadWrite (h : Blocking s) : Signaled s.signalReadWrite.1 := by
  obtain ⟨rd, wr, heq, hread, hwrite⟩ := signalReadWrite_events h
  rw [heq]
  exact ⟨hwrite, fun hr _ => hread hr⟩

theorem Blocking.signalReadWrite (h : Blocking s) : Blocking s.signalReadWrite.1 := by
  obtain ⟨rd, wr, heq⟩ := signalReadWrite_eq s
  rw [heq]
  exact ⟨h.blocking, h.pos⟩

theorem Blocking.signalIfNoError {r : CircularBuffer α × ElementOut α} (h : Blocking r.1) :
    Blocking (signalIfNoError r).1 := by
  obtain ⟨rd, wr, heq⟩ := signalIfNoError_eq r
  rw [heq]
  exact ⟨h.blocking, h.pos⟩

theorem signalIfNoError_out (r : CircularBuffer α × ElementOut α) : (signalIfNoError r).2 = r.2 := by
  obtain ⟨rd, wr, heq⟩ := signalIfNoError_eq r
  rw [heq]

/-- A call that fails has to leave the events right itself. -/
theorem signaled_signalIfNoError {r : CircularBuffer α × ElementOut α} (h : Blocking r.1)
    (hfail : r.2.err ≠ .noError → Signaled r.1) : Signaled (signalIfNoError r).1 := by
  unfold CircularBuffer.signalIfNoError
  split
  · exact signaled_signalReadWrite h
  · rename_i hnot
    exact hfail fun herr => hnot ⟨h.blocking, herr⟩

/-! ## The loops -/

section Loop

variable {wait : CircularBuffer α → CircularBuffer α × BofErr}
  {locked : CircularBuffer α → CircularBuffer α × ElementOut α} {again : BofErr} {rounds : Nat}
  {r : CircularBuffer α × ElementOut α}

/-- The loop keeps `P`, if the wait leads from `P` to `Q` and the critical section back from `Q` to `P`. -/
theorem waitAndRetry_inv {P Q : CircularBuffer α → Prop} (htimeout : ∀ s, P s → (wait s).2 ≠ .noError → P (wait s).1)
    (hwait : ∀ s, P s → (wait s).2 = .noError → Q (wait s).1)
    (hagain : ∀ s, Q s → (locked s).2.err = again → P (locked s).1)
    (hdone : ∀ s, Q s → P (signalIfNoError (locked s)).1) (h : P s)
    (heq : waitAndRetry wait locked again rounds s = some r) : P r.1 := by
  induction rounds generalizing s with
  | zero => cases heq
  | succ rounds ih =>
    unfold waitAndRetry at heq
    by_cases herr : (wait s).2 = .noError
    · have hQ := hwait s h herr
      rw [if_pos herr] at heq
      dsimp only at heq
      split at heq
      · rename_i hretry
        exact ih (hagain _ hQ hretry.2) heq
      · cases heq
        exact hdone _ hQ
    · rw [if_neg herr] at heq
      cases heq
      exact htimeout s h herr

/-- The first round decides if the wait and the critical section succeed. -/
theorem waitAndRetry_success (hwait : (wait s).2 = .noError) (hlocked : (locked (wait s).1).2.err = .noError)
    (hne : again ≠ .noError) : waitAndRetry wait locked again (rounds + 1) s = some (signalIfNoError (locked (wait s).1)) := by
  unfold waitAndRetry
  rw [if_pos hwait]
  dsimp only
  rw [if_neg fun hretry => hne (hretry.2.symm.trans hlocked)]

theorem waitAndRetry_timeout (hwait : (wait s).2 = .etimedout) :
    waitAndRetry wait locked again (rounds + 1) s = some ((wait s).1, { err := .etimedout }) := by
  unfold waitAndRetry
  rw [hwait]
  exact if_neg nofun

/-- A loop that times out has not succeeded. -/
theorem waitAndRetry_timeout_ne {out : ElementOut α} (hwait : (wait s).2 = .etimedout) (hok : out.err = .noError)
    (heq : waitAndRetry wait locked again (rounds + 1) s = some (s', out)) : False := by
  rw [waitAndRetry_timeout hwait] at heq
  cases heq
  cases hok

theorem waitAndRetry_again (hwait : (wait s).2 = .noError)
    (hblocking : (locked (wait s).1).1.mCircularBufferParam_X.Blocking_B = true)
    (hagain : (locked (wait s).1).2.err = again) :
    waitAndRetry wait locked again (rounds + 1) s = waitAndRetry wait locked again rounds (locked (wait s).1).1 := by
  have hunfold : waitAndRetry wait locked again (rounds + 1) s = if (wait s).2 = .noError then _ else _ := rfl
  rw [hunfold, if_pos hwait]
  exact if_pos ⟨hblocking, hagain⟩

theorem waitAndRetry_once (hnot : ¬ ((wait s).2 = .noError ∧ (locked (wait s).1).2.err = again)) :
    waitAndRetry wait locked again (rounds + 1) s = waitAndRetry wait locked again 1 s := by
  unfold waitAndRetry
  by_cases hwait : (wait s).2 = .noError
  · rw [if_pos hwait, if_pos hwait]
    dsimp only
    rw [if_neg fun hretry => hnot ⟨hwait, hretry.2⟩, if_neg fun hretry => hnot ⟨hwait, hretry.2⟩]
  · rw [if_neg hwait, if_neg hwait]

end Loop

/-- Blocking and signaled, the invariant of the runs. -/
def Awake (s : CircularBuffer α) : Prop := Blocking s ∧ Signaled s

theorem Signaled.setOverflow (h : Signaled s) (b : Bool) : Signaled { s with mOverflow_B := b } := ⟨h.write, h.read⟩

theorem waitCanWrite_eq (h : Blocking s) :
    s.waitCanWrite = ({ s with mCanWriteEvent_X := false }, if s.mCanWriteEvent_X then .noError else .etimedout) := by
  unfold waitCanWrite waitForEvent
  rw [if_pos h.blocking]
  cases hevent : s.mCanWriteEvent_X <;> rfl

theorem waitCanRead_empty (h : Blocking s) (h0 : s.mNbElementInBuffer_U32 = 0) :
    s.waitCanRead = ({ s with mCanReadEvent_X := false }, if s.mCanReadEvent_X then .noError else .etimedout) := by
  unfold waitCanRead waitForEvent
  rw [if_pos ⟨h.blocking, h0⟩]
  cases hevent : s.mCanReadEvent_X <;> rfl

theorem waitCanRead_nonempty (h0 : s.mNbElementInBuffer_U32 ≠ 0) : s.waitCanRead = (s, .noError) := by
  unfold waitCanRead
  exact if_neg fun h => h0 h.2

/-- A wait that times out changes nothing. -/
theorem waitCanWrite_timeout (h : Blocking s) (herr : s.waitCanWrite.2 ≠ .noError) :
    s.waitCanWrite.1 = s ∧ s.mCanWriteEvent_X = false := by
  rw [waitCanWrite_eq h] at herr ⊢
  cases hevent : s.mCanWriteEvent_X with
  | false =>
    refine ⟨?_, rfl⟩
    rw [← hevent]
  | true => exact absurd (if_pos hevent) herr

theorem waitCanRead_timeout (h : Blocking s) (herr : s.waitCanRead.2 ≠ .noError) :
    s.waitCanRead.1 = s ∧ s.mCanReadEvent_X = false := by
  by_cases h0 : s.mNbElementInBuffer_U32 = 0
  · rw [waitCanRead_empty h h0] at herr ⊢
    cases hevent : s.mCanReadEvent_X with
    | false =>
      refine ⟨?_, rfl⟩
      rw [← hevent]
    | true => exact absurd (if_pos hevent) herr
  · rw [waitCanRead_nonempty h0] at herr
    exact absurd rfl herr

/-- `Push` after its wait. -/
theorem awake_pushLocked (h : Blocking s)
    (hread : CanRead s → s.mNbElementInBuffer_U32 = 0 → s.mCanReadEvent_X = true) :
    Awake (signalIfNoError (s.pushLocked x)).1 ∧
      ((s.pushLocked x).2.err ≠ .noError → Awake (s.pushLocked x).1) := by
  have hblocking : Blocking (s.pushLocked x).1 := h.congr (pushLocked_param s x)
  have hfail : (s.pushLocked x).2.err ≠ .noError → Signaled (s.pushLocked x).1 := by
    intro herr
    rcases pushLocked_out s x with ⟨hok, -⟩ | ⟨-, hfull, heq⟩
    · exact absurd hok herr
    · rw [heq]
      exact ⟨fun hw => absurd hw hfull, hread⟩
  exact ⟨⟨hblocking.signalIfNoError, signaled_signalIfNoError hblocking hfail⟩, fun herr => ⟨hblocking, hfail herr⟩⟩

/-- `Pop` after its wait. -/
theorem awake_popLocked (h : Blocking s) (hwrite : CanWrite s → s.mCanWriteEvent_X = true) :
    Awake (signalIfNoError s.popLocked).1 ∧ (s.popLocked.2.err ≠ .noError → Awake s.popLocked.1) := by
  have hblocking : Blocking s.popLocked.1 := h.congr (popLocked_param s)
  have hfail : s.popLocked.2.err ≠ .noError → Signaled s.popLocked.1 := by
    intro herr
    rcases popLocked_out s with ⟨hok, -⟩ | ⟨-, hempty, heq⟩
    · exact absurd hok herr
    · rw [heq]
      exact ⟨hwrite, fun hr => absurd hr hempty⟩
  exact ⟨⟨hblocking.signalIfNoError, signaled_signalIfNoError hblocking hfail⟩, fun herr => ⟨hblocking, hfail herr⟩⟩

theorem Awake.push (h : Awake s) (pData : Option α) : Awake (s.push pData).1 := by
  cases pData with
  | none => exact h
  | some x => exact (awake_pushLocked h.1 h.2.read).1

theorem Awake.pushTimed {pData : Option α} {r : CircularBuffer α × ElementOut α} (h : Awake s)
    (heq : s.pushTimed pData = some r) : Awake r.1 := by
  cases pData with
  | none =>
    cases heq
    exact h
  | some x =>
    refine waitAndRetry_inv (P := Awake)
      (Q := fun s => Blocking s ∧ (CanRead s → s.mNbElementInBuffer_U32 = 0 → s.mCanReadEvent_X = true))
      ?_ ?_ ?_ ?_ h heq
    · intro s hs herr
      rw [(waitCanWrite_timeout hs.1 herr).1]
      exact hs
    · intro s hs _
      rw [waitCanWrite_eq hs.1]
      exact ⟨⟨hs.1.blocking, hs.1.pos⟩, hs.2.read⟩
    · intro s hs hfull
      exact (awake_pushLocked hs.1 hs.2).2 (by rw [hfull]; nofun)
    · intro s hs
      exact (awake_pushLocked hs.1 hs.2).1

theorem Awake.pop (h : Awake s) : Awake s.pop.1 := (awake_popLocked h.1 h.2.write).1

/-- A wait for the read event keeps the write event. -/
theorem Awake.waitCanRead (h : Awake s) :
    Blocking s.waitCanRead.1 ∧ (CanWrite s.waitCanRead.1 → s.waitCanRead.1.mCanWriteEvent_X = true) := by
  by_cases h0 : s.mNbElementInBuffer_U32 = 0
  · rw [waitCanRead_empty h.1 h0]
    exact ⟨⟨h.1.blocking, h.1.pos⟩, h.2.write⟩
  · rw [waitCanRead_nonempty h0]
    exact ⟨h.1, h.2.write⟩

theorem Awake.popTimed {r : CircularBuffer α × ElementOut α} (h : Awake s) (heq : s.popTimed = some r) :
    Awake r.1 := by
  refine waitAndRetry_inv (P := Awake)
    (Q := fun s => Blocking s ∧ (CanWrite s → s.mCanWriteEvent_X = true)) ?_ ?_ ?_ ?_ h heq
  · intro s hs herr
    rw [(waitCanRead_timeout hs.1 herr).1]
    exact hs
  · intro s hs _
    exact hs.waitCanRead
  · intro s hs hempty
    exact (awake_popLocked hs.1 hs.2).2 (by rw [hempty]; nofun)
  · intro s hs
    exact (awake_popLocked hs.1 hs.2).1

/-! ## The other calls -/

theorem peek_state (s : CircularBuffer α) : s.peek.1 = s := by
  unfold peek
  split
  · split <;> rfl
  · rfl

theorem Awake.peekTimed_iff (h : Awake s) :
    Awake s.peekTimed.1 ↔
      (s.mNbElementInBuffer_U32 = 0 → s.nbReady = 0 ∨ s.mpLock_U8 s.mPopIndex_U32 = true) := by
  unfold peekTimed
  by_cases h0 : s.mNbElementInBuffer_U32 = 0
  · have hstate : (if s.waitCanRead.2 = .noError then s.waitCanRead.1.peek
        else (s.waitCanRead.1, { err := s.waitCanRead.2 })).1 = { s with mCanReadEvent_X := false } := by
      split
      · rw [peek_state, waitCanRead_empty h.1 h0]
      · rw [waitCanRead_empty h.1 h0]
    have hread : ¬ CanRead s ↔ s.nbReady = 0 ∨ s.mpLock_U8 s.mPopIndex_U32 = true := by
      unfold CanRead
      rw [not_and_or, not_not, Bool.not_eq_false]
    rw [hstate, imp_iff_right h0, ← hread]
    constructor
    · intro hawake hr
      exact absurd (hawake.2.read hr h0) Bool.false_ne_true
    · intro hr
      exact ⟨⟨h.1.blocking, h.1.pos⟩, h.2.write, fun hr' => absurd hr' hr⟩
  · rw [waitCanRead_nonempty h0, if_pos rfl, peek_state]
    exact iff_of_true h fun h0' => absurd h0' h0

theorem Awake.skip (h : Awake s) : Awake (s.skip true).1 := by
  unfold CircularBuffer.skip
  split
  · dsimp only
    split
    · rw [if_pos ⟨h.1.blocking, rfl⟩]
      have hblocking : Blocking { s with
          mNbElementInBuffer_U32 := u32Sub s.mNbElementInBuffer_U32 1
          mPopIndex_U32 := nextIndex s.capacity s.mPopIndex_U32 } := ⟨h.1.blocking, h.1.pos⟩
      exact ⟨hblocking.signalReadWrite, signaled_signalReadWrite hblocking⟩
    · exact h
  · exact h

theorem Awake.unlockPop (h : Awake s) (absoluteIndex : Nat) : Awake (s.unlockPop absoluteIndex).1 := by
  unfold CircularBuffer.unlockPop
  split
  · split
    · split
      · have hblocking : Blocking { s with
            mpLock_U8 := Function.update s.mpLock_U8 absoluteIndex false
            mNbElementInBuffer_U32 := u32Sub s.mNbElementInBuffer_U32 1
            mNbElementLockedInBuffer_U32 := u32Sub s.mNbElementLockedInBuffer_U32 1 } :=
          ⟨h.1.blocking, h.1.pos⟩
        exact ⟨hblocking.signalReadWrite, signaled_signalReadWrite hblocking⟩
      · exact h
    · exact h
  · exact h

theorem popLastPushLocked_out (s : CircularBuffer α) :
    s.popLastPushLocked.1.mCircularBufferParam_X = s.mCircularBufferParam_X ∧
      (s.popLastPushLocked.2.err ≠ .noError → s.popLastPushLocked.1 = s) := by
  unfold popLastPushLocked
  split
  · refine ⟨?_, fun herr => absurd rfl herr⟩
    dsimp only
    split <;> rfl
  · exact ⟨rfl, fun _ => rfl⟩

theorem Awake.popLastPush (h : Awake s) : Awake s.popLastPush.1 := by
  obtain ⟨hparam, hfail⟩ := popLastPushLocked_out s
  have hblocking : Blocking s.popLastPushLocked.1 := h.1.congr hparam
  refine ⟨hblocking.signalIfNoError, signaled_signalIfNoError hblocking fun herr => ?_⟩
  rw [hfail herr]
  exact h.2

theorem Awake.setOverWriteMode_iff (h : Awake s) (overwrite : Bool) :
    Awake (s.setOverWriteMode overwrite) ↔
      (overwrite = true → s.mCanWriteEvent_X = true ∨ s.mpLock_U8 s.mPushIndex_U32 = true) := by
  constructor
  · rintro hawake rfl
    cases hlock : s.mpLock_U8 s.mPushIndex_U32 with
    | true => exact .inr rfl
    | false => exact .inl (hawake.2.write ⟨.inl rfl, hlock⟩)
  · intro hcond
    refine ⟨⟨h.1.blocking, h.1.pos⟩, ?_, h.2.read⟩
    rintro ⟨hroom, hlock⟩
    cases overwrite with
    | true =>
      rcases hcond rfl with hset | hlocked
      · exact hset
      · exact absurd (hlock.symm.trans hlocked) Bool.false_ne_true
    | false =>
      rcases hroom with hover | hlt
      · exact absurd hover Bool.false_ne_true
      · exact h.2.write ⟨.inr hlt, hlock⟩

theorem Blocking.reset_iff (h : Blocking s) : Awake s.reset ↔ s.mCanWriteEvent_X = true := by
  constructor
  · intro hawake
    exact hawake.2.write ⟨.inr h.pos, rfl⟩
  · intro hset
    refine ⟨⟨h.blocking, h.pos⟩, fun _ => hset, ?_⟩
    rintro ⟨hready, -⟩
    exact absurd rfl hready

/-! ## Runs -/

theorem awake_create {param : CircularBufferParam} (hpos : 0 < param.NbMaxElement_U32)
    (hblocking : param.Blocking_B = true) (pData : Nat → α) : Awake (create param pData) := by
  refine ⟨⟨hblocking, hpos⟩, fun _ => hblocking, ?_⟩
  rintro ⟨hready, -⟩
  exact absurd rfl hready

theorem waitStep_some {op : WaitOp α} {r : CircularBuffer α × ElementOut α} (h : s.call op = some r) :
    (waitStep s op).1 = r.1 := by
  unfold waitStep
  rw [h]

/-- One call keeps the events right exactly if it is none of those that leave an event clear. -/
theorem Awake.waitStep_iff (h : Awake s) {op : WaitOp α} (hop : Completes s op) :
    Awake (waitStep s op).1 ↔ RaisesEvents s op := by
  obtain ⟨r, hr⟩ := Option.ne_none_iff_exists'.mp hop
  rw [waitStep_some hr]
  cases op with
  | push pData timed =>
    refine iff_of_true ?_ trivial
    cases timed with
    | false =>
      cases hr
      exact h.push pData
    | true => exact h.pushTimed hr
  | pop timed =>
    refine iff_of_true ?_ trivial
    cases timed with
    | false =>
      cases hr
      exact h.pop
    | true => exact h.popTimed hr
  | peek timed =>
    cases timed with
    | false =>
      cases hr
      refine iff_of_true ?_ trivial
      rw [if_neg Bool.false_ne_true, peek_state]
      exact h
    | true =>
      cases hr
      exact h.peekTimed_iff
  | skip =>
    cases hr
    exact iff_of_true h.skip trivial
  | popLastPush =>
    cases hr
    exact iff_of_true h.popLastPush trivial
  | unlockPop absoluteIndex =>
    cases hr
    exact iff_of_true (h.unlockPop absoluteIndex) trivial
  | setOverWriteMode overwrite =>
    cases hr
    rw [h.setOverWriteMode_iff]
    cases overwrite with
    | true => exact imp_iff_right rfl
    | false => exact iff_of_true nofun trivial
  | reset =>
    cases hr
    exact h.1.reset_iff

/-! ## The parameters stay -/

theorem Blocking.waitCanWrite (h : Blocking s) : Blocking s.waitCanWrite.1 := by
  rw [waitCanWrite_eq h]
  exact ⟨h.blocking, h.pos⟩

theorem Blocking.waitCanRead (h : Blocking s) : Blocking s.waitCanRead.1 := by
  by_cases h0 : s.mNbElementInBuffer_U32 = 0
  · rw [waitCanRead_empty h h0]
    exact ⟨h.blocking, h.pos⟩
  · rw [waitCanRead_nonempty h0]
    exact h

theorem Blocking.pushLocked (h : Blocking s) (x : α) : Blocking (s.pushLocked x).1 := h.congr (pushLocked_param s x)

theorem Blocking.popLocked (h : Blocking s) : Blocking s.popLocked.1 := h.congr (popLocked_param s)

theorem Blocking.waitAndRetry {wait : CircularBuffer α → CircularBuffer α × BofErr}
    {locked : CircularBuffer α → CircularBuffer α × ElementOut α} {again : BofErr} {rounds : Nat}
    {r : CircularBuffer α × ElementOut α} (h : Blocking s) (hwait : ∀ s, Blocking s → Blocking (wait s).1)
    (hlocked : ∀ s, Blocking s → Blocking (locked s).1) (heq : waitAndRetry wait locked again rounds s = some r) :
    Blocking r.1 :=
  waitAndRetry_inv (P := Blocking) (Q := Blocking) (fun s hs _ => hwait s hs) (fun s hs _ => hwait s hs)
    (fun s hs _ => hlocked s hs) (fun s hs => (hlocked s hs).signalIfNoError) h heq

theorem Blocking.waitStep (h : Blocking s) (op : WaitOp α) : Blocking (waitStep s op).1 := by
  cases hcall : s.call op with
  | none =>
    unfold CircularBuffer.waitStep
    rw [hcall]
    exact h
  | some r =>
    rw [waitStep_some hcall]
    cases op with
    | push pData timed =>
      cases timed with
      | false =>
        cases hcall
        cases pData with
        | none => exact h
        | some x => exact (h.pushLocked x).signalIfNoError
      | true =>
        cases pData with
        | none =>
          cases hcall
          exact h
        | some x => exact h.waitAndRetry (fun _ hs => hs.waitCanWrite) (fun _ hs => hs.pushLocked x) hcall
    | pop timed =>
      cases timed with
      | false =>
        cases hcall
        exact h.popLocked.signalIfNoError
      | true => exact h.waitAndRetry (fun _ hs => hs.waitCanRead) (fun _ hs => hs.popLocked) hcall
    | peek timed =>
      cases hcall
      split
      · unfold peekTimed
        split
        · rw [peek_state]
          exact h.waitCanRead
        · exact h.waitCanRead
      · rw [peek_state]
        exact h
    | skip =>
      cases hcall
      unfold CircularBuffer.skip
      split
      · dsimp only
        split
        · rw [if_pos ⟨h.blocking, rfl⟩]
          exact Blocking.signalReadWrite ⟨h.blocking, h.pos⟩
        · exact h
      · exact h
    | popLastPush =>
      cases hcall
      exact (h.congr (popLastPushLocked_out s).1).signalIfNoError
    | unlockPop absoluteIndex =>
      cases hcall
      unfold CircularBuffer.unlockPop
      split
      · split
        · split
          · exact Blocking.signalReadWrite ⟨h.blocking, h.pos⟩
          · exact h
        · exact h
      · exact h
    | setOverWriteMode overwrite =>
      cases hcall
      exact ⟨h.blocking, h.pos⟩
    | reset =>
      cases hcall
      exact ⟨h.blocking, h.pos⟩

/-! ## Agreement -/

theorem push_err_iff : (s.push (some x)).2.err = .noError ↔ CanWrite s := by
  have hout : (s.push (some x)).2 = (s.pushLocked x).2 := signalIfNoError_out _
  rw [hout]
  rcases pushLocked_out s x with ⟨herr, hw⟩ | ⟨herr, hw, -⟩
  · exact iff_of_true herr hw
  · exact iff_of_false herr hw

theorem pop_err_iff : s.pop.2.err = .noError ↔ CanRead s := by
  have hout : s.pop.2 = s.popLocked.2 := signalIfNoError_out _
  rw [hout]
  rcases popLocked_out s with ⟨herr, hr⟩ | ⟨herr, hr, -⟩
  · exact iff_of_true herr hr
  · exact iff_of_false herr hr

/-- A `Push` that waits succeeds when the event is set and there is room. -/
theorem pushTimed_of_set (h : Blocking s) (hset : s.mCanWriteEvent_X = true) (hw : CanWrite s) :
    ∃ s', s.pushTimed (some x) = some (s', (s.push (some x)).2) := by
  have hwait := waitCanWrite_eq h
  rw [hset, if_pos rfl] at hwait
  have hout : (s.push (some x)).2 = (s.pushLocked x).2 := signalIfNoError_out _
  have hlocked : ((s.waitCanWrite.1).pushLocked x).2 = (s.pushLocked x).2 := by
    rw [hwait, pushLocked_setWrite]
  have herr : ((s.waitCanWrite.1).pushLocked x).2.err = .noError := by
    rw [hlocked, ← hout]
    exact push_err_iff.mpr hw
  have hloop : waitAndRetry CircularBuffer.waitCanWrite (fun s => s.pushLocked x) .full 2 s =
      some (signalIfNoError (s.waitCanWrite.1.pushLocked x)) :=
    waitAndRetry_success (congrArg Prod.snd hwait) herr nofun
  refine ⟨(signalIfNoError (s.waitCanWrite.1.pushLocked x)).1, hloop.trans ?_⟩
  rw [hout, ← hlocked, ← signalIfNoError_out]

theorem popTimed_of_set (h : Blocking s) (hset : s.mNbElementInBuffer_U32 = 0 → s.mCanReadEvent_X = true)
    (hr : CanRead s) : ∃ s', s.popTimed = some (s', s.pop.2) := by
  have hout : s.pop.2 = s.popLocked.2 := signalIfNoError_out _
  have hwait : s.waitCanRead.2 = .noError ∧ s.waitCanRead.1.popLocked.2 = s.popLocked.2 := by
    by_cases h0 : s.mNbElementInBuffer_U32 = 0
    · rw [waitCanRead_empty h h0, popLocked_setRead]
      exact ⟨if_pos (hset h0), rfl⟩
    · rw [waitCanRead_nonempty h0]
      exact ⟨rfl, rfl⟩
  have herr : s.waitCanRead.1.popLocked.2.err = .noError := by
    rw [hwait.2, ← hout]
    exact pop_err_iff.mpr hr
  have hloop : s.popTimed = some (signalIfNoError s.waitCanRead.1.popLocked) :=
    waitAndRetry_success hwait.1 herr nofun
  refine ⟨(signalIfNoError s.waitCanRead.1.popLocked).1, hloop.trans ?_⟩
  rw [hout, ← hwait.2, ← signalIfNoError_out]

theorem Blocking.agrees_iff (h : Blocking s) : Agrees s ↔ Awake s := by
  constructor
  · intro hagrees
    refine ⟨h, ?_, ?_⟩
    · intro hw
      by_contra hclear
      have hok := push_err_iff (x := s.mpData_T 0).mpr hw
      obtain ⟨s', hpush⟩ := hagrees.push _ hok
      have hwait : s.waitCanWrite.2 = .etimedout := by
        rw [waitCanWrite_eq h]
        exact if_neg hclear
      have hloop : CircularBuffer.waitAndRetry CircularBuffer.waitCanWrite
          (fun s' => s'.pushLocked (s.mpData_T 0)) .full 2 s = some (s', (s.push (some (s.mpData_T 0))).2) := hpush
      exact waitAndRetry_timeout_ne hwait hok hloop
    · intro hr h0
      by_contra hclear
      have hok := pop_err_iff.mpr hr
      obtain ⟨s', hpop⟩ := hagrees.pop hok
      have hwait : s.waitCanRead.2 = .etimedout := by
        rw [waitCanRead_empty h h0]
        exact if_neg hclear
      exact waitAndRetry_timeout_ne hwait hok hpop
  · intro hawake
    constructor
    · intro pData hok
      cases pData with
      | none => cases hok
      | some x =>
        have hw := push_err_iff.mp hok
        exact pushTimed_of_set h (hawake.2.write hw) hw
    · intro hok
      have hr := pop_err_iff.mp hok
      exact popTimed_of_set h (hawake.2.read hr) hr

/-- More rounds of the loop in `Pop` change nothing: a call that is not over after two of them never is. -/
theorem popTimed_rounds (h : Blocking s) (rounds : Nat) :
    waitAndRetry waitCanRead popLocked .empty (rounds + 2) s = s.popTimed := by
  unfold popTimed
  by_cases hagain : s.waitCanRead.2 = .noError ∧ s.waitCanRead.1.popLocked.2.err = .empty
  · have hstate : s.waitCanRead.1.popLocked.1 = s.waitCanRead.1 := by
      rcases popLocked_out s.waitCanRead.1 with ⟨hok, -⟩ | ⟨-, -, heq⟩
      · rw [hagain.2] at hok
        cases hok
      · exact heq
    have hnext : ∀ rounds, waitAndRetry waitCanRead popLocked .empty (rounds + 1) s =
        waitAndRetry waitCanRead popLocked .empty rounds s.waitCanRead.1 := by
      intro rounds
      rw [waitAndRetry_again hagain.1 h.waitCanRead.popLocked.blocking hagain.2, hstate]
    by_cases h0 : s.mNbElementInBuffer_U32 = 0
    · -- the event is clear now
      have hblocking := h.waitCanRead
      have htimeout : s.waitCanRead.1.waitCanRead.2 = .etimedout := by
        rw [waitCanRead_empty h h0] at hblocking ⊢
        rw [waitCanRead_empty hblocking h0]
        rfl
      rw [hnext, hnext, waitAndRetry_timeout htimeout, waitAndRetry_timeout htimeout]
    · -- the call finds the same state again and again
      have hnone : ∀ rounds, waitAndRetry waitCanRead popLocked .empty rounds s = none := by
        intro rounds
        induction rounds with
        | zero => rfl
        | succ rounds ih => rw [hnext, waitCanRead_nonempty h0, ih]
      rw [hnone, hnone]
  · exact (waitAndRetry_once hagain).trans (waitAndRetry_once hagain).symm

/-- Calls with a timeout agree with the others along a run exactly if no call leaves an event clear. -/
theorem agreesAlong_iff (param : CircularBufferParam) (pData : Nat → α) (ops : List (WaitOp α))
    (hpos : 0 < param.NbMaxElement_U32) (hblocking : param.Blocking_B = true)
    (hops : Meets waitStep Completes (create param pData) ops) :
    AgreesAlong param pData ops ↔ Meets waitStep RaisesEvents (create param pData) ops := by
  have hawake := awake_create hpos hblocking pData
  have hstate : ∀ ops', Blocking (run waitStep (create param pData) ops').1 := fun ops' =>
    inv_run (fun _ op hs _ => hs.waitStep op) hawake.1 (meets_of_forall (fun _ _ => True.intro) _ _)
  rw [← forall_prefix_iff_meets (fun _ _ hs hop => hs.waitStep_iff hop) hawake hops]
  exact forall_congr' fun ops' => imp_congr_right fun _ => (hstate ops').agrees_iff

theorem agreesAlong_one_slot :
    AgreesAlong ⟨1, by decide, false, true, false⟩ (fun _ => 0) [.push (some 5) true, .pop true] :=
  (agreesAlong_iff ⟨1, by decide, false, true, false⟩ (fun _ => 0) [.push (some 5) true, .pop true] (by decide) rfl
    (by simp only [meets_cons, meets_nil, and_true]; exact ⟨by rintro ⟨⟩, by rintro ⟨⟩⟩)).mpr
    ⟨trivial, trivial, trivial⟩

/-- A buffer with one slot is filled by a `Push` that waits, and emptied by `Reset`: the write event stays clear,
so that a `Push` that waits times out on the empty buffer. -/
theorem not_agreesAlong_reset :
    ¬ AgreesAlong ⟨1, by decide, false, true, false⟩ (fun _ => 0) [.push (some 5) true, .reset] := by
  intro hagrees
  let s := (run waitStep (create ⟨1, by decide, false, true, false⟩ fun _ => 0) [.push (some 5) true, .reset]).1
  obtain ⟨s', hpush⟩ : ∃ s', s.pushTimed (some 6) = some (s', (s.push (some 6)).2) :=
    (hagrees _ (List.prefix_refl _)).push (some 6) rfl
  have hout : (s.pushTimed (some 6)).map Prod.snd = some (s.push (some 6)).2 := congrArg (Option.map Prod.snd) hpush
  exact absurd hout (by decide)

end BofStd.CircularBuffer
