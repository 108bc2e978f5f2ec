import BofStd.Basic

/-!
# `BOF_EVENT` (`bofsystem.h`, `bofsystem.cpp`)

A word of up to 64 flags. The predicates of the waits take the flags that they wait for, so they are functions on
the event; an expression whose value is not defined has the result `none`, and so has what computes it. The name,
the mutex and the condition variable are no data of these functions: the runs say when a call holds the mutex.
-/

namespace BofStd

/-- `BOF_EVENT`, as `Reset` leaves it. -/
structure BofEvent where
  Magic_U32 : Nat := 0
  MaxNumberToNotify_U32 : Nat := 0
  SignaledBitmask_U64 : BitVec 64 := 0
  WaitKeepSignaled_B : Bool := false
  NotifyAll_B : Bool := false
  deriving DecidableEq

namespace BofEvent

/-- `BOF_EVENT_MAGIC`. -/
def eventMagic : Nat := 0x1F564864

/-- `1 << i`, an `int`: not defined when `i` is not less than its width. -/
def shiftOne (i : Nat) : Option (BitVec 32) := if i < 32 then some (1#32 <<< i) else none

/-- `x - 1`, an `int`: not defined when it overflows. -/
def minusOne (x : BitVec 32) : Option (BitVec 32) := if x = BitVec.intMin 32 then none else some (x - 1)

/-- The conversion of an `int` to `uint64_t`. -/
def toU64 (x : BitVec 32) : BitVec 64 := x.signExtend 64

/-- `_InitialState_B ? (1 << (_MaxNumberToNotify_U32 - 1)) - 1 : 0`. -/
def initialMask (initialState : Bool) (maxNumberToNotify : Nat) : Option (BitVec 64) :=
  if initialState then do
    let x ← shiftOne (maxNumberToNotify - 1)
    let x ← minusOne x
    return toU64 x
  else return 0

/-- `Bof_CreateEvent`. -/
def createEvent (initialState : Bool) (maxNumberToNotify : Nat) (waitKeepSignaled notifyAll : Bool) (e : BofEvent) :
    Option (BofEvent × BofErr) :=
  if e.Magic_U32 ≠ eventMagic then
    if maxNumberToNotify ≠ 0 ∧ maxNumberToNotify ≤ 64 then do
      let mask ← initialMask initialState maxNumberToNotify
      return ({
        Magic_U32 := eventMagic
        MaxNumberToNotify_U32 := maxNumberToNotify
        SignaledBitmask_U64 := mask
        WaitKeepSignaled_B := waitKeepSignaled
        NotifyAll_B := notifyAll }, .noError)
    else return (e, .einval)
  else return (e, .eexist)

/-- `static_cast<uint64_t>(1) << i`. -/
def flag (i : Nat) : BitVec 64 := 1#64 <<< i

/-- `Bof_SignalEvent`, without the notification. -/
def signalEvent (e : BofEvent) (i : Nat) : BofEvent × BofErr :=
  if e.Magic_U32 = eventMagic then
    if i < e.MaxNumberToNotify_U32 then
      ({ e with SignaledBitmask_U64 := e.SignaledBitmask_U64 ||| flag i }, .noError)
    else (e, .einval)
  else (e, .init)

/-- `Bof_IsEventSignaled`. -/
def isEventSignaled (e : BofEvent) (i : Nat) : Bool :=
  if e.Magic_U32 = eventMagic then
    if i < e.MaxNumberToNotify_U32 then e.SignaledBitmask_U64 &&& flag i ≠ 0 else false
  else false

/-- `Bof_SetEventMask`. -/
def setEventMask (e : BofEvent) (v : BitVec 64) : BofEvent × BofErr :=
  if e.Magic_U32 = eventMagic then ({ e with SignaledBitmask_U64 := v }, .noError) else (e, .init)

/-- `Bof_GetEventMask`. -/
def getEventMask (e : BofEvent) : BitVec 64 × BofErr :=
  if e.Magic_U32 = eventMagic then (e.SignaledBitmask_U64, .noError) else (0, .init)

/-! ## The predicates of the waits -/

/-- The predicate of `Bof_WaitForEvent`. -/
def predicateEvent (i : Nat) (e : BofEvent) : Option (Bool × BofEvent) :=
  let b : Bool := e.SignaledBitmask_U64 &&& flag i ≠ 0
  if b && !e.WaitKeepSignaled_B then do
    let x ← shiftOne i
    return (b, { e with SignaledBitmask_U64 := e.SignaledBitmask_U64 &&& toU64 (~~~x) })
  else return (b, e)

/-- The predicate of `Bof_WaitForEventMaskAnd`. -/
def predicateMaskAnd (mask : BitVec 64) (e : BofEvent) : Bool × BofEvent :=
  let b : Bool := e.SignaledBitmask_U64 &&& mask = mask
  if b && !e.WaitKeepSignaled_B then
    (b, { e with SignaledBitmask_U64 := e.SignaledBitmask_U64 &&& ~~~mask })
  else (b, e)

/-- The predicate of `Bof_WaitForEventMaskOr`, with `_rEventGot_U64`. -/
def predicateMaskOr (mask : BitVec 64) (e : BofEvent) : Bool × BofEvent × BitVec 64 :=
  let got := e.SignaledBitmask_U64 &&& mask
  let b : Bool := got ≠ 0
  if b && !e.WaitKeepSignaled_B then
    (b, { e with SignaledBitmask_U64 := e.SignaledBitmask_U64 &&& ~~~got }, got)
  else (b, e, got)

/-! ## The waits of one thread -/

/-- `std::condition_variable::wait_for` with a predicate, when nobody else runs: after the given number of spurious
wake-ups it times out and returns what the predicate says then. -/
def waitFor {σ : Type} (pred : σ → Option (Bool × σ)) : Nat → σ → Option (Bool × σ)
  | 0, s => do
    let (b, s) ← pred s
    if b then return (true, s) else pred s
  | wakeUps + 1, s => do
    let (b, s) ← pred s
    if b then return (true, s) else waitFor pred wakeUps s

/-- What a wait returns. -/
def waitResult (b : Bool) : BofErr := if b then .noError else .etimedout

/-- `Bof_WaitForEvent`. -/
def waitForEvent (e : BofEvent) (wakeUps i : Nat) : Option (BofEvent × BofErr) :=
  if e.Magic_U32 = eventMagic then
    if i < e.MaxNumberToNotify_U32 then do
      let (b, e) ← waitFor (predicateEvent i) wakeUps e
      return (e, waitResult b)
    else return (e, .einval)
  else return (e, .init)

/-- `Bof_WaitForEventMaskAnd`. -/
def waitForEventMaskAnd (e : BofEvent) (wakeUps : Nat) (mask : BitVec 64) : Option (BofEvent × BofErr) :=
  if e.Magic_U32 = eventMagic then do
    let (b, e) ← waitFor (fun e => some (predicateMaskAnd mask e)) wakeUps e
    return (e, waitResult b)
  else return (e, .init)

/-- `Bof_WaitForEventMaskOr`, with `_rEventGot_U64`. -/
def waitForEventMaskOr (e : BofEvent) (wakeUps : Nat) (mask : BitVec 64) : Option (BofEvent × BitVec 64 × BofErr) :=
  if e.Magic_U32 = eventMagic then do
    let (b, e, got) ← waitFor (fun s : BofEvent × BitVec 64 => some (predicateMaskOr mask s.1)) wakeUps (e, 0)
    return (e, got, waitResult b)
  else return (e, 0, .init)

/-! ## Runs of one thread -/

/-- The calls; a wait with its number of spurious wake-ups. -/
inductive Op where
  | signalEvent (i : Nat)
  | setEventMask (v : BitVec 64)
  | getEventMask
  | isEventSignaled (i : Nat)
  | waitForEvent (wakeUps i : Nat)
  | waitForEventMaskAnd (wakeUps : Nat) (mask : BitVec 64)
  | waitForEventMaskOr (wakeUps : Nat) (mask : BitVec 64)

/-- What a call returns: an error code, with a mask of flags or not, or a truth value. -/
inductive Out (μ : Type) where
  | err (err : BofErr)
  | mask (m : μ) (err : BofErr)
  | signaled (b : Bool)
  | undefined
  deriving DecidableEq

/-- One call. -/
def call (e : BofEvent) : Op → Option (BofEvent × Out (BitVec 64))
  | .signalEvent i => some ((e.signalEvent i).1, .err (e.signalEvent i).2)
  | .setEventMask v => some ((e.setEventMask v).1, .err (e.setEventMask v).2)
  | .getEventMask => some (e, .mask e.getEventMask.1 e.getEventMask.2)
  | .isEventSignaled i => some (e, .signaled (e.isEventSignaled i))
  | .waitForEvent wakeUps i => (e.waitForEvent wakeUps i).map fun r => (r.1, .err r.2)
  | .waitForEventMaskAnd wakeUps mask => (e.waitForEventMaskAnd wakeUps mask).map fun r => (r.1, .err r.2)
  | .waitForEventMaskOr wakeUps mask =>
    (e.waitForEventMaskOr wakeUps mask).map fun r => (r.1, .mask r.2.1 r.2.2)

/-- One call of a run; after a call whose effect is not defined, there is no event to speak of. -/
def step (e : Option BofEvent) (op : Op) : Option BofEvent × Out (BitVec 64) :=
  match e.bind fun e => e.call op with
  | some (e, out) => (some e, out)
  | none => (none, .undefined)

end BofEvent

end BofStd
