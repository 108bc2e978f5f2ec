import BofStd.Basic
import BofStd.Lib.Run
import Mathlib.Logic.Function.Basic

/-!
# The pot of elements `BofPot`

An array of elements that callers get and release. With a magic number the first `uint32_t` of an element
says whether it is in use, without one a list of flags beside the storage does. The number of elements out
of the pot is kept separately, and the search for a free element starts where the last one ended.

The calls have a zero timeout, so that nothing is waited for; the mutex and the event are left out.
-/

namespace BofStd

/-- `BOF_POT_PARAM`. -/
structure PotParam where
  magicNumber : Nat
  getOpPreserveContent : Bool
  potCapacity : Nat
  magicNumber_lt : magicNumber < 4294967296
  potCapacity_lt : potCapacity < 4294967296

/-- What `BOF_POT_PARAM::Reset` sets. -/
def PotParam.reset : PotParam := ⟨0, false, 0, by decide, by decide⟩

/-- An element of the pot: its first `uint32_t` and the bytes behind. -/
structure PotElement where
  word : Nat
  body : List UInt8

/-- The members of a pot. Places in the storage and in the flag list are indices. -/
structure Pot where
  param : PotParam
  /-- `mpPotDataStorage_X` -/
  storage : Nat → PotElement
  /-- `mpFirstPotElementToTryForGet_X` -/
  first : Nat
  /-- `mNumberOfElementOutOfThePot_U32` -/
  nbOut : Nat
  /-- `mpInUseElementList_U8` -/
  inUseList : Nat → Nat
  /-- `mLevelMax_U32` -/
  levelMax : Nat

namespace Pot

/-- The complement `~mPotParam_X.MagicNumber_U32`. -/
def notMagic (s : Pot) : Nat := 4294967295 - s.param.magicNumber

def capacity (s : Pot) : Nat := s.param.potCapacity

/-- Store a word at the start of an element. -/
def setWord (s : Pot) (i w : Nat) : Pot :=
  { s with storage := Function.update s.storage i { s.storage i with word := w } }

/-- Store a flag of the in-use list. -/
def setFlag (s : Pot) (i w : Nat) : Pot := { s with inUseList := Function.update s.inUseList i w }

/-- The constructor: without a capacity the parameters keep their default values. `data` is what the
elements hold when they are allocated. -/
def create (param : PotParam) (data : Nat → PotElement) : Pot :=
  if param.potCapacity = 0 then ⟨PotParam.reset, data, 0, 0, fun _ => 0, 0⟩
  else if param.magicNumber ≠ 0 then
    ⟨param, fun i => { data i with word := 0 }, 0, 0, fun _ => 0, 0⟩
  else ⟨param, data, 0, 0, fun _ => 0, 0⟩

/-- The expression `InUse_B` of `IsPotElementInUse`. -/
def inUse (s : Pot) (i : Nat) : Bool :=
  if s.param.magicNumber ≠ 0 then
    decide ((s.storage i).word = s.param.magicNumber) || decide ((s.storage i).word = s.notMagic)
  else s.inUseList i != 0

/-- The expression `Locked_B` of `IsPotElementLocked`. -/
def locked (s : Pot) (i : Nat) : Bool :=
  if s.param.magicNumber ≠ 0 then decide ((s.storage i).word = s.notMagic) else s.inUseList i == 0xAA

/-- The index of an element pointer (null, or an offset from the storage) that points into the pot. -/
def index (s : Pot) : Option Int → Option Nat
  | none => none
  | some p => if 0 ≤ p ∧ p < s.capacity then some p.toNat else none

/-- `IsPotElementInUse`. -/
def isPotElementInUse (s : Pot) (p : Option Int) : BofErr :=
  match s.index p with
  | none => .einval
  | some i => if s.inUse i then .noError else .ebusy

/-- `IsPotElementLocked`. -/
def isPotElementLocked (s : Pot) (p : Option Int) : BofErr :=
  match s.index p with
  | none => .einval
  | some i => if s.locked i then .noError else .unlock

/-- The loop of `Get`: `n` places are left to try, `pData` and `pLocked` run in parallel. -/
def searchFree (s : Pot) : Nat → Nat → Nat → Option (Nat × Nat)
  | 0, _, _ => none
  | n + 1, pData, pLocked =>
    let (pData, pLocked) := if pData > s.capacity - 1 then (0, 0) else (pData, pLocked)
    let free :=
      if s.param.magicNumber ≠ 0 then
        decide ((s.storage pData).word ≠ s.param.magicNumber) && decide ((s.storage pData).word ≠ s.notMagic)
      else s.inUseList pLocked == 0
    if free then some (pData, pLocked) else searchFree s n (pData + 1) (pLocked + 1)

/-- `memset(pData_X, 0, sizeof(DataType))`, unless the content is preserved. -/
def clear (s : Pot) (i : Nat) : Pot :=
  if s.param.getOpPreserveContent then s
  else
    { s with storage := Function.update s.storage i ⟨0, List.replicate (s.storage i).body.length 0⟩ }

/-- The mark that `Get` sets. -/
def mark (s : Pot) (lock : Bool) (pData pLocked : Nat) : Pot :=
  if s.param.magicNumber ≠ 0 then s.setWord pData (if lock then s.notMagic else s.param.magicNumber)
  else s.setFlag pLocked (if lock then 0xAA else 0xFF)

/-- `Get` with a zero timeout: the new state and the index of the element that is handed out. -/
def getElement (s : Pot) (lock : Bool) : Pot × Option Nat :=
  if s.nbOut < s.capacity then
    match s.searchFree s.capacity s.first s.first with
    | none => (s, none)
    | some (pData, pLocked) =>
      let s := (s.clear pData).mark lock pData pLocked
      let nbOut := s.nbOut + 1
      ({ s with
          nbOut := nbOut
          levelMax := if nbOut > s.levelMax then nbOut else s.levelMax
          first := if pData + 1 > s.capacity - 1 then 0 else pData + 1 }, some pData)
  else (s, none)

/-- `Lock`: not with a magic number. -/
def lockElement (s : Pot) : Pot × Option Nat :=
  if s.param.magicNumber ≠ 0 then (s, none) else s.getElement true

/-- The mark of an element that is in use (`Unlock`). -/
def unlock (s : Pot) (p : Option Int) : Pot × BofErr :=
  match s.isPotElementLocked p, s.index p with
  | .noError, some i =>
    (if s.param.magicNumber ≠ 0 then s.setWord i s.param.magicNumber else s.setFlag i 0xFF, .noError)
  | err, _ => (s, err)

/-- Mark an element as free. -/
def free (s : Pot) (i : Nat) : Pot :=
  if s.param.magicNumber ≠ 0 then s.setWord i 0 else s.setFlag i 0

/-- `Release`. -/
def release (s : Pot) (p : Option Int) : Pot × BofErr :=
  match s.isPotElementInUse p, s.index p with
  | .noError, some i =>
    if s.nbOut ≠ 0 then ({ s with nbOut := s.nbOut - 1 }.free i, .noError) else (s, .internal)
  | _, _ => (s, .notAvailable)

/-- The elements `n`, `n + 1` and so on below `m` are marked as free, the last one last. -/
def freeLoop (s : Pot) (n m : Nat) : Pot := (List.range' n (m - n)).foldl free s

/-- `ClearPot`. -/
def clearPot (s : Pot) (nbFirstEntryToKeep : Nat) : Pot × BofErr :=
  if nbFirstEntryToKeep < s.capacity then
    let nbLockedKept := (List.range nbFirstEntryToKeep).countP fun i : Nat =>
      s.isPotElementInUse (some (i : Int)) = .noError
    let s := s.freeLoop nbFirstEntryToKeep s.capacity
    ({ s with nbOut := nbLockedKept, first := nbFirstEntryToKeep }, .noError)
  else (s, .einval)

/-- `Reset`. -/
def reset (s : Pot) : Pot := { s with levelMax := 0, first := 0, nbOut := 0 }.freeLoop 0 s.capacity

/-- The test of `GetFirstUsed` and `GetNextUsed`: in use and not locked. -/
def used (s : Pot) (i : Nat) : Bool :=
  if s.param.magicNumber ≠ 0 then decide ((s.storage i).word = s.param.magicNumber) else s.inUseList i == 0xFF

/-- The loop of `GetFirstUsed`: `n` places from `i` on are left, and `nb` used elements have been skipped. -/
def searchUsed (s : Pot) (skip : Nat) : Nat → Nat → Nat → Option Nat
  | 0, _, _ => none
  | n + 1, i, nb =>
    if s.used i then if nb = skip then some i else searchUsed s skip n (i + 1) (u32 (nb + 1))
    else searchUsed s skip n (i + 1) nb

/-- `GetFirstUsed`. -/
def getFirstUsed (s : Pot) (nbEntryToSkip : Nat) : Option Nat :=
  if nbEntryToSkip < s.nbOut then s.searchUsed nbEntryToSkip s.capacity 0 0 else none

/-- `GetNextUsed`: its loop is that of `GetFirstUsed` with nothing to skip. -/
def getNextUsed (s : Pot) (p : Option Int) : Option Nat :=
  match s.index p with
  | none => none
  | some i => if i + 1 ≤ s.capacity - 1 then s.searchUsed 0 (s.capacity - 1 - (i + 1) + 1) (i + 1) 0 else none

/-- A caller writes into an element, but with a magic number never into its first word. -/
def store (s : Pot) (i : Nat) (e : PotElement) : Pot :=
  let e := if s.param.magicNumber ≠ 0 then ⟨(s.storage i).word, e.body⟩ else e
  { s with storage := Function.update s.storage i e }

/-- The calls, and the writes of the callers. -/
inductive Op where
  | get
  | lock
  | unlock (p : Option Int)
  | release (p : Option Int)
  | clearPot (n : Nat)
  | reset
  | store (i : Nat) (e : PotElement)

/-- What a call returns. -/
inductive Out where
  | slot (i : Option Nat)
  | err (e : BofErr)
  | done
  deriving DecidableEq

/-- One call. -/
def step (s : Pot) : Op → Pot × Out
  | .get => ((s.getElement false).1, .slot (s.getElement false).2)
  | .lock => (s.lockElement.1, .slot s.lockElement.2)
  | .unlock p => ((s.unlock p).1, .err (s.unlock p).2)
  | .release p => ((s.release p).1, .err (s.release p).2)
  | .clearPot n => ((s.clearPot n).1, .err (s.clearPot n).2)
  | .reset => (s.reset, .done)
  | .store i e => (s.store i e, .done)

end Pot

end BofStd
