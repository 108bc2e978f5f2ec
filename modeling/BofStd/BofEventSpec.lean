import BofStd.BofEvent
import BofStd.Lib.BitMask
import BofStd.Lib.Run
import BofStd.BofEventThreads

/-!
# What `BOF_EVENT` is for: a set of flags

`FlagSet` is the set of the flags that are set. A wait takes its flags out of the set, unless they are kept. The
event refines it (`IsFlagSet`) where `Bof_CreateEvent` and `Bof_WaitForEvent` compute the right words.
-/

namespace BofStd

open Machine BitMask

/-- A set of flags. The calls for one flag are for those below `size`. -/
structure FlagSet where
  size : Nat
  keep : Bool
  flags : Finset Nat

namespace FlagSet

/-- The wait for `wanted` has succeeded: these flags are taken, unless they are kept. -/
def take (f : FlagSet) (wanted : Finset Nat) : FlagSet := if f.keep then f else { f with flags := f.flags \ wanted }

/-- One call. -/
def step (f : FlagSet) : BofEvent.Op → FlagSet × BofEvent.Out (Finset Nat)
  | .signalEvent i =>
    if i < f.size then ({ f with flags := insert i f.flags }, .err .noError) else (f, .err .einval)
  | .setEventMask v => ({ f with flags := positions v }, .err .noError)
  | .getEventMask => (f, .mask f.flags .noError)
  | .isEventSignaled i => (f, .signaled (decide (i < f.size ∧ i ∈ f.flags)))
  | .waitForEvent _ i =>
    if i < f.size then
      if i ∈ f.flags then (f.take {i}, .err .noError) else (f, .err .etimedout)
    else (f, .err .einval)
  | .waitForEventMaskAnd _ mask =>
    if positions mask ⊆ f.flags then (f.take (positions mask), .err .noError) else (f, .err .etimedout)
  | .waitForEventMaskOr _ mask =>
    if f.flags ∩ positions mask ≠ ∅ then
      (f.take (f.flags ∩ positions mask), .mask (f.flags ∩ positions mask) .noError)
    else (f, .mask ∅ .etimedout)

end FlagSet

namespace BofEvent

/-- What a call returns, with the mask as a set. -/
def Out.flags : Out (BitVec 64) → Out (Finset Nat)
  | .err e => .err e
  | .mask m e => .mask (positions m) e
  | .signaled b => .signaled b
  | .undefined => .undefined

/-- The event holds the flags of the set. -/
structure Holds (e : BofEvent) (f : FlagSet) : Prop where
  magic : e.Magic_U32 = eventMagic
  size : e.MaxNumberToNotify_U32 = f.size
  size_le : f.size ≤ 64
  keep : e.WaitKeepSignaled_B = f.keep
  flags : positions e.SignaledBitmask_U64 = f.flags

/-- The state of a run is defined and holds the flags of the set. -/
def HoldsFlags (e : Option BofEvent) (f : FlagSet) : Prop := ∃ e', e = some e' ∧ e'.Holds f

/-- A new event, if `Bof_CreateEvent` is defined. -/
def created (initialState : Bool) (maxNumberToNotify : Nat) (waitKeepSignaled notifyAll : Bool) : Option BofEvent :=
  (createEvent initialState maxNumberToNotify waitKeepSignaled notifyAll {}).map Prod.fst

/-- The set of flags that a new event is to hold. -/
def initialFlags (initialState : Bool) (maxNumberToNotify : Nat) (waitKeepSignaled : Bool) : FlagSet where
  size := maxNumberToNotify
  keep := waitKeepSignaled
  flags := if initialState then Finset.range maxNumberToNotify else ∅

/-- All along the run `ops` the event holds the flags of the set, and the calls return what they do on the set. -/
structure IsFlagSet (initialState : Bool) (maxNumberToNotify : Nat) (waitKeepSignaled notifyAll : Bool)
    (ops : List Op) : Prop where
  holds : ∀ js, js <+: ops →
    HoldsFlags (run step (created initialState maxNumberToNotify waitKeepSignaled notifyAll) js).1
      (run FlagSet.step (initialFlags initialState maxNumberToNotify waitKeepSignaled) js).1
  returns : (run step (created initialState maxNumberToNotify waitKeepSignaled notifyAll) ops).2.map Out.flags =
    (run FlagSet.step (initialFlags initialState maxNumberToNotify waitKeepSignaled) ops).2

/-- A wait for one flag that takes it: the flag is one of the lower 31, or the last one of the lower half and no
flag of the upper half is set. -/
def TakesItsFlag : Option BofEvent → Op → Prop
  | some e, .waitForEvent _ i =>
    i < e.MaxNumberToNotify_U32 → i ∈ positions e.SignaledBitmask_U64 → e.WaitKeepSignaled_B = false →
      i < 31 ∨ i = 31 ∧ ∀ j ∈ positions e.SignaledBitmask_U64, j < 32
  | _, _ => True

instance : (e : Option BofEvent) → (op : Op) → Decidable (TakesItsFlag e op)
  | some _, .waitForEvent _ _ => inferInstanceAs (Decidable (_ → _))
  | none, _ => isTrue trivial
  | some _, .signalEvent _ | some _, .setEventMask _ | some _, .getEventMask | some _, .isEventSignaled _
  | some _, .waitForEventMaskAnd _ _ | some _, .waitForEventMaskOr _ _ => isTrue trivial

end BofEvent

end BofStd

/-!
## What a shared `BOF_EVENT` is for: no thread sleeps on a flag that is set

`Holding` is what a waiter waits for. `Bof_SetEventMask` writes the flags and notifies nobody, so a wake-up is lost
as soon as it sets what somebody waits for; `SetsNothingAwaited` says that it does not.
-/

namespace BofStd.BofEvent

open Monitor

/-- The predicate of the wait holds on `SignaledBitmask_U64`. -/
def Holding (e : BofEvent) : Wait → Prop
  | .event i => e.SignaledBitmask_U64 &&& flag i ≠ 0
  | .maskAnd mask => e.SignaledBitmask_U64 &&& mask = mask
  | .maskOr mask => e.SignaledBitmask_U64 &&& mask ≠ 0

variable {τ : Type}

/-- `Bof_SetEventMask` makes the predicate of no blocked thread true, and `Bof_WaitForEvent` takes no flag of the
upper half. -/
def SetsNothingAwaited (s : System τ BofEvent Write Wait) (i : τ × Act τ Write Wait) : Prop :=
  ∀ e, s.state = some e → match i.2, s.pcs i.1 with
    | .body _, .inside (.inl (.setEventMask v)) =>
      ∀ t w, s.pcs t = .blocked w → ¬Holding { e with SignaledBitmask_U64 := v } w
    | .body _, .inside (.inr (.event i)) => Holding e (.event i) → e.WaitKeepSignaled_B = false → i < 32
    | _, _ => True

end BofStd.BofEvent
