import BofStd.BlockingCallsSpec
import BofStd.Proofs.CircularBufferEventProofs
import BofStd.Proofs.PotEventProofs

/-!
# Blocking calls return, unless a pop skips its wait for ever

A push that finds the buffer full has cleared the write event, so that its second wait times out; `Get` of a pot is the
same. A pop waits only if its counter of elements is 0: then the second wait times out too. Otherwise a round that
finds nothing to read leaves everything as it is, and is repeated for ever.
-/

namespace BofStd

open Machine Retry

/-- A wait that succeeds clears the event. -/
theorem waitForEvent_noError {event : Bool} (h : (waitForEvent event).2 = .noError) : (waitForEvent event).1 = false := by
  cases event with
  | true => rfl
  | false => cases h

/-! ## `BofCircularBuffer` -/

namespace CircularBuffer

variable {α : Type*} {s : CircularBuffer α} {x : α}

section Round

variable {wait : CircularBuffer α → CircularBuffer α × BofErr}
  {locked : CircularBuffer α → CircularBuffer α × ElementOut α} {again : BofErr}

/-- One round of the loop. -/
def waitRound (wait : CircularBuffer α → CircularBuffer α × BofErr)
    (locked : CircularBuffer α → CircularBuffer α × ElementOut α) (again : BofErr) (s : CircularBuffer α) :
    Round (CircularBuffer α) (CircularBuffer α × ElementOut α) :=
  if (wait s).2 = .noError then
    if (locked (wait s).1).1.mCircularBufferParam_X.Blocking_B ∧ (locked (wait s).1).2.err = again then
      .again (locked (wait s).1).1
    else .stop (signalIfNoError (locked (wait s).1))
  else .stop ((wait s).1, { err := (wait s).2 })

theorem waitAndRetry_eq_loop (rounds : Nat) (s : CircularBuffer α) :
    waitAndRetry wait locked again rounds s = loop (waitRound wait locked again) rounds s := by
  induction rounds generalizing s with
  | zero => rfl
  | succ rounds ih =>
    rw [waitAndRetry, loop, waitRound]
    dsimp only
    by_cases hwait : (wait s).2 = .noError
    · rw [if_pos hwait, if_pos hwait]
      by_cases hagain : (locked (wait s).1).1.mCircularBufferParam_X.Blocking_B ∧ (locked (wait s).1).2.err = again
      · rw [if_pos hagain, if_pos hagain]
        exact ih _
      · rw [if_neg hagain, if_neg hagain]
    · rw [if_neg hwait, if_neg hwait]

theorem waitRound_again {s' : CircularBuffer α} (h : waitRound wait locked again s = .again s') :
    (wait s).2 = .noError ∧ (locked (wait s).1).2.err = again ∧ (locked (wait s).1).1 = s' ∧
      s'.mCircularBufferParam_X.Blocking_B = true := by
  unfold waitRound at h
  split at h
  · rename_i hwait
    split at h
    · rename_i hagain
      cases h
      exact ⟨hwait, hagain.2, rfl, hagain.1⟩
    · cases h
  · cases h

theorem waitRound_timeout (h : (wait s).2 = .etimedout) :
    waitRound wait locked again s = .stop ((wait s).1, { err := .etimedout }) := by
  rw [waitRound, h, if_neg BofErr.noConfusion]

end Round

/-- A push that starts again has cleared the event, and the next round times out. -/
theorem waitCanWrite_second {locked : CircularBuffer α → CircularBuffer α × ElementOut α}
    (hfull : ∀ s, (locked s).2.err = .full → (locked s).1 = { s with mOverflow_B := true }) {s' : CircularBuffer α}
    (hround : waitRound waitCanWrite locked .full s = .again s') : ∃ r, waitRound waitCanWrite locked .full s' = .stop r := by
  obtain ⟨hwait, herr, hs', hblocking⟩ := waitRound_again hround
  rw [hfull _ herr] at hs'
  have hparam : s.mCircularBufferParam_X.Blocking_B = true := by
    rw [← hs', waitCanWrite] at hblocking
    split at hblocking
    · exact hblocking
    · exact hblocking
  have hclear : s'.mCanWriteEvent_X = false := by
    rw [waitCanWrite, if_pos hparam] at hwait
    rw [← hs', waitCanWrite, if_pos hparam]
    exact waitForEvent_noError hwait
  have htimeout : s'.waitCanWrite.2 = .etimedout := by
    rw [waitCanWrite, if_pos hblocking, hclear]
    rfl
  exact ⟨_, waitRound_timeout htimeout⟩

theorem pushLocked_full (s : CircularBuffer α) (x : α) (h : (s.pushLocked x).2.err = .full) :
    (s.pushLocked x).1 = { s with mOverflow_B := true } := by
  rcases pushLocked_out s x with ⟨hok, -⟩ | ⟨-, -, heq⟩
  · rw [hok] at h
    cases h
  · exact heq

theorem pushForNextPopLocked_full (s : CircularBuffer α) (x : α) (forceIfFull : Bool)
    (h : (s.pushForNextPopLocked x forceIfFull).2.err = .full) :
    (s.pushForNextPopLocked x forceIfFull).1 = { s with mOverflow_B := true } ∧ forceIfFull = false := by
  unfold pushForNextPopLocked at h ⊢
  split at h
  · cases h
  · rename_i hroom
    rw [if_neg hroom]
    rw [not_or, not_or] at hroom
    exact ⟨rfl, Bool.eq_false_iff.mpr hroom.2.1⟩

theorem pushForNextPop_second {forceIfFull : Bool} {s' : CircularBuffer α}
    (hround : waitRound (waitCanInsert forceIfFull) (fun s => s.pushForNextPopLocked x forceIfFull) .full s = .again s') :
    ∃ r, waitRound (waitCanInsert forceIfFull) (fun s => s.pushForNextPopLocked x forceIfFull) .full s' = .stop r := by
  cases forceIfFull with
  | false =>
    have hwait : waitCanInsert (α := α) false = waitCanWrite := by
      funext s
      simp only [waitCanInsert, waitCanWrite, and_true]
    rw [hwait] at hround ⊢
    exact waitCanWrite_second (fun s h => (pushForNextPopLocked_full s x false h).1) hround
  | true =>
    -- an element that is forced in is never refused
    obtain ⟨-, herr, -⟩ := waitRound_again hround
    exact absurd (pushForNextPopLocked_full _ x true herr).2 (Bool.false_ne_true ·.symm)

theorem popLocked_empty (h : s.popLocked.2.err = .empty) : s.popLocked.1 = s ∧ s.nbReady = 0 := by
  unfold popLocked at h ⊢
  split at h
  · split at h
    · cases h
    · cases h
  · rename_i hready
    rw [if_neg hready]
    exact ⟨rfl, not_not.mp hready⟩

/-- A round that does not wait and finds no element ready leaves everything as it is. -/
theorem popRound_never (h : NeverReady s) : waitRound waitCanRead popLocked .empty s = .again s := by
  obtain ⟨hblocking, hcount, hready⟩ := h
  have hwait : s.waitCanRead = (s, .noError) := if_neg fun h => hcount h.2
  have hpop : s.popLocked = (s, { err := .empty }) := if_neg (not_not.mpr hready)
  rw [waitRound, hwait, if_pos rfl, hpop, if_pos ⟨hblocking, rfl⟩]

/-- A `Pop` that starts again has cleared the event, or has not waited. -/
theorem popRound_second {s' : CircularBuffer α} (hround : waitRound waitCanRead popLocked .empty s = .again s') :
    (∃ r, waitRound waitCanRead popLocked .empty s' = .stop r) ∨ (NeverReady s ∧ s' = s) := by
  obtain ⟨hwait, herr, hs', hblocking⟩ := waitRound_again hround
  obtain ⟨hsame, hready⟩ := popLocked_empty herr
  rw [hsame] at hs'
  by_cases hwaits : s.mCircularBufferParam_X.Blocking_B = true ∧ s.mNbElementInBuffer_U32 = 0
  · rw [waitCanRead, if_pos hwaits] at hwait hs'
    have hcount : s'.mNbElementInBuffer_U32 = 0 := by
      rw [← hs']
      exact hwaits.2
    have hclear : s'.mCanReadEvent_X = false := by
      rw [← hs']
      exact waitForEvent_noError hwait
    have htimeout : s'.waitCanRead.2 = .etimedout := by
      rw [waitCanRead, if_pos ⟨hblocking, hcount⟩, hclear]
      rfl
    exact Or.inl ⟨_, waitRound_timeout htimeout⟩
  · rw [waitCanRead, if_neg hwaits] at hs' hready
    subst hs'
    exact Or.inr ⟨⟨hblocking, fun h0 => hwaits ⟨hblocking, h0⟩, hready⟩, rfl⟩

theorem returns_pop_iff (s : CircularBuffer α) :
    Retry.Returns (waitRound waitCanRead popLocked .empty) s ↔ ¬ NeverReady s := by
  constructor
  · intro hr hnever
    exact not_returns_fix (popRound_never hnever) hr
  · intro hnever
    refine returns_of_second fun s' hround => ?_
    rcases popRound_second hround with hstop | ⟨hno, -⟩
    · exact hstop
    · exact absurd hno hnever

theorem isSome_waitAndRetry_iff {wait : CircularBuffer α → CircularBuffer α × BofErr}
    {locked : CircularBuffer α → CircularBuffer α × ElementOut α} {again : BofErr} :
    (∃ rounds, (waitAndRetry wait locked again rounds s).isSome) ↔ Retry.Returns (waitRound wait locked again) s := by
  simp only [waitAndRetry_eq_loop, Retry.Returns]

/-- Every call returns, but `Pop` does not when there are elements and none is ready. -/
theorem returns_iff (s : CircularBuffer α) (c : RetryCall α) : s.Returns c ↔ (c = .pop → ¬ NeverReady s) := by
  cases c with
  | push pData =>
    refine iff_of_true ?_ nofun
    cases pData with
    | none => exact ⟨0, rfl⟩
    | some x =>
      refine isSome_waitAndRetry_iff.mpr (returns_of_second fun s' hround => ?_)
      exact waitCanWrite_second (fun s => pushLocked_full s x) hround
  | pop =>
    have hpop := isSome_waitAndRetry_iff.trans (returns_pop_iff s)
    exact hpop.trans ⟨fun h _ => h, fun h => h rfl⟩
  | pushForNextPop pData forceIfFull =>
    refine iff_of_true ?_ nofun
    cases pData with
    | none => exact ⟨0, rfl⟩
    | some x => exact isSome_waitAndRetry_iff.mpr (returns_of_second fun s' hround => pushForNextPop_second hround)

/-- Two rounds decide, so that `retryStep` stands still only if the call does not return. -/
theorem returns_iff_two_rounds (s : CircularBuffer α) (c : RetryCall α) : s.Returns c ↔ (s.retryCall 2 c).isSome := by
  cases c with
  | push pData =>
    cases pData with
    | none => exact iff_of_true ⟨0, rfl⟩ rfl
    | some x =>
      refine isSome_waitAndRetry_iff.trans ?_
      rw [retryCall, waitAndRetry_eq_loop]
      exact returns_iff_two fun s' hround => Or.inl (waitCanWrite_second (fun s => pushLocked_full s x) hround)
  | pop =>
    refine isSome_waitAndRetry_iff.trans ?_
    rw [retryCall, waitAndRetry_eq_loop]
    refine returns_iff_two fun s' hround => ?_
    rcases popRound_second hround with hstop | ⟨hnever, rfl⟩
    · exact Or.inl hstop
    · exact Or.inr (popRound_never hnever)
  | pushForNextPop pData forceIfFull =>
    cases pData with
    | none => exact iff_of_true ⟨0, rfl⟩ rfl
    | some x =>
      refine isSome_waitAndRetry_iff.trans ?_
      rw [retryCall, waitAndRetry_eq_loop]
      exact returns_iff_two fun s' hround => Or.inl (pushForNextPop_second hround)

end CircularBuffer

/-! ## `BofStringCircularBuffer` -/

namespace BlockingStringBuffer

variable {s : BlockingStringBuffer}

/-- What a wait that succeeds does to the write event. -/
theorem waitCanWrite_eq (hblocking : s.blocking = true) (hwait : s.waitCanWrite.2 = .noError) :
    s.waitCanWrite.1 = { s with canWrite := false } := by
  rw [waitCanWrite, if_pos hblocking] at hwait ⊢
  rw [waitForEvent_noError hwait]

theorem pushBinary_full (s : StringCircularBuffer) (size : Nat) (bytes : List UInt8)
    (h : (s.pushBinary size (some bytes)).2.err = .full) : (s.pushBinary size (some bytes)).1 = s := by
  simp only [StringCircularBuffer.pushBinary] at h ⊢
  split at h
  · rename_i hfull
    rw [if_pos hfull]
  · split at h
    · cases h
    · cases h

theorem pushBinaryRound_again {size : Nat} {bytes : List UInt8} {s' : BlockingStringBuffer}
    (h : pushBinaryRound size bytes s = .again s') :
    s.waitCanWrite.2 = .noError ∧ s' = s.waitCanWrite.1 ∧ s'.blocking = true := by
  unfold pushBinaryRound at h
  dsimp only at h
  split at h
  · rename_i hwait
    split at h
    · rename_i hblocking
      split at h
      · cases h
      · split at h
        · rename_i hfull
          rw [pushBinary_full _ _ _ hfull] at h
          cases h
          exact ⟨hwait, rfl, hblocking⟩
        · cases h
    · cases h
  · cases h

/-- A push that starts again has cleared the event, and the next round times out. -/
theorem pushBinaryRound_second {size : Nat} {bytes : List UInt8} {s' : BlockingStringBuffer}
    (hround : pushBinaryRound size bytes s = .again s') : ∃ r, pushBinaryRound size bytes s' = .stop r := by
  obtain ⟨hwait, hs', hblocking⟩ := pushBinaryRound_again hround
  have hparam : s.blocking = true := by
    rw [hs', waitCanWrite] at hblocking
    split at hblocking
    · assumption
    · exact hblocking
  rw [waitCanWrite_eq hparam hwait] at hs'
  have htimeout : s'.waitCanWrite.2 = .etimedout := by
    rw [waitCanWrite, if_pos hblocking, hs']
    rfl
  refine ⟨(s'.waitCanWrite.1, { err := .etimedout }), ?_⟩
  rw [pushBinaryRound]
  dsimp only
  rw [htimeout, if_neg BofErr.noConfusion]

/-- What a read that does not look at the mode comes to. -/
theorem popWith_cases (index : StringCircularBuffer → Nat)
    (advance terminate : StringCircularBuffer → StringCircularBuffer) (avail nbMax : Nat) (b : StringCircularBuffer) :
    ((avail = 0 ∨ nbMax = 0) ∧ StringCircularBuffer.popWith index advance terminate avail nbMax b = (b, { err := .empty })) ∨
      (¬ (avail = 0 ∨ nbMax = 0) ∧
        (StringCircularBuffer.popWith index advance terminate avail nbMax b).2.err = .noError) := by
  rw [StringCircularBuffer.popWith]
  by_cases havail : avail = 0
  · rw [if_pos havail]
    exact Or.inl ⟨Or.inl havail, rfl⟩
  · rw [if_neg havail]
    dsimp only
    by_cases hmax : nbMax = 0
    · have hnb : (if nbMax > avail then avail else nbMax) = 0 := by
        rw [hmax, if_neg (Nat.not_lt_zero _)]
      rw [if_pos hnb]
      exact Or.inl ⟨Or.inr hmax, rfl⟩
    · have hnb : (if nbMax > avail then avail else nbMax) ≠ 0 := by
        split
        · exact havail
        · exact hmax
      rw [if_neg hnb]
      exact Or.inr ⟨fun h => h.elim havail hmax, rfl⟩

/-- `PopString` fails only with an empty buffer, and then changes nothing and sets the limit to 0. -/
theorem popString_cases (s : BlockingStringBuffer) (nbMax : Nat) :
    ((s.nbReadable = 0 ∨ nbMax = 0) ∧ s.buffer.popString (some nbMax) true = (s.buffer, { err := .empty })) ∨
      (¬ (s.nbReadable = 0 ∨ nbMax = 0) ∧ (s.buffer.popString (some nbMax) true).2.err = .noError) := by
  rw [StringCircularBuffer.popString, nbReadable]
  split
  · exact popWith_cases _ _ _ _ _ _
  · exact popWith_cases _ _ _ _ _ _

theorem popStringRound_again {nbMax : Nat} {t : BlockingStringBuffer × Nat}
    (h : popStringRound (s, nbMax) = .again t) :
    s.waitCanRead.2 = .noError ∧ t = (s.waitCanRead.1, 0) ∧ (s.waitCanRead.1.nbReadable = 0 ∨ nbMax = 0) ∧
      s.waitCanRead.1.blocking = true := by
  unfold popStringRound at h
  dsimp only at h
  split at h
  · rename_i hwait
    split at h
    · rename_i hblocking
      rcases popString_cases s.waitCanRead.1 nbMax with ⟨hnone, heq⟩ | ⟨-, hok⟩
      · rw [heq, if_neg BofErr.noConfusion, if_pos rfl] at h
        cases h
        exact ⟨hwait, rfl, hnone, hblocking⟩
      · rw [if_pos hok] at h
        cases h
    · cases h
  · cases h

/-- A round that does not wait and finds nothing to read starts again with the limit 0. -/
theorem popStringRound_never {nbMax : Nat} (h : s.NeverReadable nbMax) : popStringRound (s, nbMax) = .again (s, 0) := by
  obtain ⟨hblocking, hcount, hnone⟩ := h
  have hwait : s.waitCanRead = (s, .noError) := if_neg fun h => hcount h.2
  have hpop : s.buffer.popString (some nbMax) true = (s.buffer, { err := .empty }) := by
    rcases popString_cases s nbMax with ⟨-, heq⟩ | ⟨hnot, -⟩
    · exact heq
    · exact absurd hnone hnot
  rw [popStringRound]
  dsimp only
  rw [hwait, if_pos rfl, hpop]
  dsimp only
  rw [if_pos hblocking, if_neg BofErr.noConfusion, if_pos rfl]

/-- A `PopString` that starts again has cleared the event, or has not waited. -/
theorem popStringRound_second {nbMax : Nat} {t : BlockingStringBuffer × Nat}
    (hround : popStringRound (s, nbMax) = .again t) :
    (∃ r, popStringRound t = .stop r) ∨ (s.NeverReadable nbMax ∧ t = (s, 0)) := by
  obtain ⟨hwait, ht, hnone, hblocking⟩ := popStringRound_again hround
  by_cases hwaits : s.blocking = true ∧ s.buffer.mNbElementInBuffer_U32 = 0
  · rw [waitCanRead, if_pos hwaits] at ht hwait
    rw [waitForEvent_noError hwait] at ht
    have htimeout : t.1.waitCanRead.2 = .etimedout := by
      rw [ht, waitCanRead, if_pos hwaits]
      rfl
    refine Or.inl ⟨(t.1.waitCanRead.1, { err := .etimedout, nbMax := t.2 }), ?_⟩
    rw [popStringRound]
    dsimp only
    rw [htimeout, if_neg BofErr.noConfusion]
  · rw [waitCanRead, if_neg hwaits] at ht hnone hblocking
    exact Or.inr ⟨⟨hblocking, fun h0 => hwaits ⟨hblocking, h0⟩, hnone⟩, ht⟩

theorem NeverReadable.zero {nbMax : Nat} (h : s.NeverReadable nbMax) : s.NeverReadable 0 := ⟨h.1, h.2.1, Or.inr rfl⟩

theorem returns_popString_iff (s : BlockingStringBuffer) (nbMax : Nat) :
    Retry.Returns popStringRound (s, nbMax) ↔ ¬ s.NeverReadable nbMax := by
  constructor
  · intro hr hnever
    exact not_returns_fix (popStringRound_never hnever.zero) ((returns_again_iff (popStringRound_never hnever)).mp hr)
  · intro hnever
    refine returns_of_second fun t hround => ?_
    rcases popStringRound_second hround with hstop | ⟨hno, -⟩
    · exact hstop
    · exact absurd hno hnever

/-- Every call returns, but `PopString` does not when there are strings and nothing to read. -/
theorem returns_iff (s : BlockingStringBuffer) (c : RetryCall) :
    s.Returns c ↔ ∀ nbMax, c = .popString (some nbMax) true → ¬ s.NeverReadable nbMax := by
  cases c with
  | pushString pData =>
    refine iff_of_true ?_ nofun
    cases pData with
    | none => exact ⟨0, rfl⟩
    | some bytes => exact returns_of_second fun s' hround => pushBinaryRound_second hround
  | pushBinary size pData =>
    refine iff_of_true ?_ nofun
    cases pData with
    | none => exact ⟨0, rfl⟩
    | some bytes => exact returns_of_second fun s' hround => pushBinaryRound_second hround
  | popString pNbMax pData =>
    cases pNbMax with
    | none => exact iff_of_true ⟨0, rfl⟩ nofun
    | some nbMax =>
      cases pData with
      | false => exact iff_of_true ⟨0, rfl⟩ nofun
      | true =>
        refine (returns_popString_iff s nbMax).trans ?_
        constructor
        · intro h nbMax' heq
          cases heq
          exact h
        · intro h
          exact h nbMax rfl

/-- Two rounds decide, so that `step` stands still only if the call does not return. -/
theorem returns_iff_two_rounds (s : BlockingStringBuffer) (c : RetryCall) :
    s.Returns c ↔ (s.retryCall 2 c).isSome := by
  cases c with
  | pushString pData =>
    cases pData with
    | none => exact iff_of_true ⟨0, rfl⟩ rfl
    | some bytes => exact returns_iff_two fun s' hround => Or.inl (pushBinaryRound_second hround)
  | pushBinary size pData =>
    cases pData with
    | none => exact iff_of_true ⟨0, rfl⟩ rfl
    | some bytes => exact returns_iff_two fun s' hround => Or.inl (pushBinaryRound_second hround)
  | popString pNbMax pData =>
    cases pNbMax with
    | none => exact iff_of_true ⟨0, rfl⟩ rfl
    | some nbMax =>
      cases pData with
      | false => exact iff_of_true ⟨0, rfl⟩ rfl
      | true =>
        refine returns_iff_two fun t hround => ?_
        rcases popStringRound_second hround with hstop | ⟨hnever, rfl⟩
        · exact Or.inl hstop
        · exact Or.inr (popStringRound_never hnever.zero)

end BlockingStringBuffer

/-! ## Runs -/

/-- In every state that a run of calls reaches, every blocking call returns, but for a `Pop` that finds elements none of
which is ready and a `PopString` that finds strings and nothing to read. -/
theorem blockingCalls_return_iff {α : Type*} (param : CircularBufferParam) (pData : Nat → α)
    (ops : List (CircularBuffer.RetryOp α)) (call : CircularBuffer.RetryCall α) (stringParam : StringCircularBufferParam)
    (blocking : Bool) (stringData : Nat → UInt8) (stringOps : List BlockingStringBuffer.Op)
    (stringCall : BlockingStringBuffer.RetryCall) (potParam : PotParam) (potData : Nat → PotElement)
    (potOps : List BlockingPot.Op) (lock : Bool) :
    ((run CircularBuffer.retryStep (.create param pData) ops).1.Returns call ↔
      (call = .pop → ¬ (run CircularBuffer.retryStep (.create param pData) ops).1.NeverReady)) ∧
    ((run BlockingStringBuffer.step (.create stringParam blocking stringData) stringOps).1.Returns stringCall ↔
      ∀ nbMax, stringCall = .popString (some nbMax) true →
        ¬ (run BlockingStringBuffer.step (.create stringParam blocking stringData) stringOps).1.NeverReadable nbMax) ∧
    (run BlockingPot.step (.create potParam potData) potOps).1.Returns lock :=
  ⟨CircularBuffer.returns_iff _ call, BlockingStringBuffer.returns_iff _ stringCall,
    2, BlockingPot.retryGet_isSome _ lock⟩

/-- In lock mode a popped element that is not unlocked is counted but not ready: a second `Pop` never returns. In snapshot
mode a string that was pushed is counted, but nothing can be read before a resync: `PopString` never returns. -/
theorem not_returns_locked_or_snapshot :
    ¬ (run CircularBuffer.retryStep (.create ⟨4, by decide, false, true, true⟩ fun _ => 0)
      [.untimed (.push (some 7)), .untimed .pop]).1.Returns .pop ∧
    ¬ (run BlockingStringBuffer.step (.create ⟨8, by decide, true, false⟩ true fun _ => 0)
      [.timed (.pushString (some [97]))]).1.Returns (.popString (some 8) true) := by
  constructor
  · rw [CircularBuffer.returns_iff]
    intro hreturns
    refine hreturns rfl ⟨rfl, ?_, ?_⟩
    · decide
    · decide
  · rw [BlockingStringBuffer.returns_iff]
    intro hreturns
    refine hreturns 8 rfl ⟨rfl, ?_, Or.inl ?_⟩
    · decide
    · decide

end BofStd
