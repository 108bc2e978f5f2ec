import BofStd.Pot

/-!
# The blocking calls of `BofPot`

A pot with `Blocking_B` and `MultiThreadAware_B`, used by one thread. `Get` and `Lock` with a timeout that is not
zero wait for the event and start again when the pot is empty after all. Two rounds decide, because the first one
has cleared the event (`retryGet_isSome`).
-/

namespace BofStd

/-- A pot with its event `mCanGetEvent_X`. -/
structure BlockingPot where
  pot : Pot
  /-- `mPotParam_X.Blocking_B` -/
  blocking : Bool
  canGet : Bool

namespace BlockingPot

/-- The constructor with `Blocking_B`: without a capacity the parameters keep their default values, and there is
no event. -/
def create (param : PotParam) (data : Nat → PotElement) : BlockingPot :=
  if param.potCapacity = 0 then ⟨Pot.create param data, false, false⟩ else ⟨Pot.create param data, true, true⟩

/-- `Bof_SignalEvent` in a pot with an event. -/
def signal (s : BlockingPot) : BlockingPot := if s.blocking then { s with canGet := true } else s

/-- `Bof_SignalEvent`, when there are elements in the pot. -/
def signalIfRoom (s : BlockingPot) : BlockingPot := if s.pot.nbOut < s.pot.capacity then s.signal else s

/-- The wait of `Get`. -/
def waitCanGet (s : BlockingPot) : BlockingPot × BofErr :=
  if s.blocking then ({ s with canGet := (waitForEvent s.canGet).1 }, (waitForEvent s.canGet).2) else (s, .noError)

/-- `Get` after its wait: the new state, `Sts_E` and the index of the element that is handed out. -/
def getLocked (s : BlockingPot) (lock : Bool) : BlockingPot × BofErr × Option Nat :=
  if s.pot.nbOut < s.pot.capacity then
    (signalIfRoom { s with pot := (s.pot.getElement lock).1 }, .noError, (s.pot.getElement lock).2)
  else (s, .empty, none)

/-- The loop of `RetryGet`; `none` if it is not over after this number of rounds. -/
def retryGet (lock : Bool) : Nat → BlockingPot → Option (BlockingPot × Option Nat)
  | 0, _ => none
  | rounds + 1, s =>
    if s.waitCanGet.2 = .noError then
      let r := s.waitCanGet.1.getLocked lock
      if r.1.blocking ∧ r.2.1 = .empty then retryGet lock rounds r.1 else some (r.1, r.2.2)
    else some (s.waitCanGet.1, none)

/-- `Get` with a lock mark or not, and with a timeout or not. -/
def getElement (s : BlockingPot) (lock timed : Bool) : Option (BlockingPot × Option Nat) :=
  if timed then retryGet lock 2 s else some ((s.getLocked lock).1, (s.getLocked lock).2.2)

/-- `Lock`: not with a magic number. -/
def lockElement (s : BlockingPot) (timed : Bool) : Option (BlockingPot × Option Nat) :=
  if s.pot.param.magicNumber ≠ 0 then some (s, none) else s.getElement true timed

/-- `Release`. -/
def release (s : BlockingPot) (p : Option Int) : BlockingPot × BofErr :=
  let r := s.pot.release p
  (if r.2 = .noError then signal { s with pot := r.1 } else { s with pot := r.1 }, r.2)

/-- `ClearPot`. -/
def clearPot (s : BlockingPot) (nbFirstEntryToKeep : Nat) : BlockingPot × BofErr :=
  let r := s.pot.clearPot nbFirstEntryToKeep
  (if r.2 = .noError then signalIfRoom { s with pot := r.1 } else { s with pot := r.1 }, r.2)

/-- The calls, and the writes of the callers; `timed` says whether the timeout is not zero. -/
inductive Op where
  | get (timed : Bool)
  | lock (timed : Bool)
  | unlock (p : Option Int)
  | release (p : Option Int)
  | clearPot (n : Nat)
  | reset
  | store (i : Nat) (e : PotElement)

/-- One call; `none` if it does not return. -/
def call (s : BlockingPot) : Op → Option (BlockingPot × Pot.Out)
  | .get timed => (s.getElement false timed).map fun r => (r.1, .slot r.2)
  | .lock timed => (s.lockElement timed).map fun r => (r.1, .slot r.2)
  | .unlock p => some ({ s with pot := (s.pot.unlock p).1 }, .err (s.pot.unlock p).2)
  | .release p => some ((s.release p).1, .err (s.release p).2)
  | .clearPot n => some ((s.clearPot n).1, .err (s.clearPot n).2)
  | .reset => some ({ s with pot := s.pot.reset }, .done)
  | .store i e => some ({ s with pot := s.pot.store i e }, .done)

/-- One call as a step of a machine, which would stand still if the call did not return. -/
def step (s : BlockingPot) (op : Op) : BlockingPot × Option Pot.Out :=
  match s.call op with
  | some (s', out) => (s', some out)
  | none => (s, none)

end BlockingPot

end BofStd
