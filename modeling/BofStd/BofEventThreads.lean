import BofStd.BofEvent
import BofStd.Lib.Monitor

/-!
# `BOF_EVENT` shared by several threads

The functions of `BOF_EVENT` as a monitor: what they do before they lock the mutex of the event, while they hold it
and when they test the predicate of a wait. The waits do not time out.
-/

namespace BofStd.BofEvent

open Monitor

/-- The calls that write the flags. -/
inductive Write where
  | signalEvent (i : Nat)
  | setEventMask (v : BitVec 64)

/-- The waits. -/
inductive Wait where
  | event (i : Nat)
  | maskAnd (mask : BitVec 64)
  | maskOr (mask : BitVec 64)

/-- The tests before the mutex is locked. -/
def enters (e : BofEvent) : Write ⊕ Wait → Bool
  | .inl (.signalEvent i) | .inr (.event i) => e.Magic_U32 = eventMagic && i < e.MaxNumberToNotify_U32
  | .inl (.setEventMask _) | .inr (.maskAnd _) | .inr (.maskOr _) => e.Magic_U32 = eventMagic

/-- `Bof_SignalEvent` and `Bof_SetEventMask` under the mutex. -/
def write (e : BofEvent) : Write → BofEvent × Notify
  | .signalEvent i =>
    ({ e with SignaledBitmask_U64 := e.SignaledBitmask_U64 ||| flag i }, if e.NotifyAll_B then .all else .one)
  | .setEventMask v => ({ e with SignaledBitmask_U64 := v }, .nobody)

/-- The predicates. -/
def test (e : BofEvent) : Wait → Option (Bool × BofEvent)
  | .event i => predicateEvent i e
  | .maskAnd mask => some (predicateMaskAnd mask e)
  | .maskOr mask => some ((predicateMaskOr mask e).1, (predicateMaskOr mask e).2.1)

/-- The event with its mutex and its condition variable. -/
def monitor : Monitor BofEvent Write Wait := ⟨enters, write, test⟩

end BofStd.BofEvent
