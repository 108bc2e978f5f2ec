import BofStd.Pot
import Mathlib.Data.Finset.Card
import Mathlib.Data.Finset.Range

/-!
# What `BofPot` is for: slots that are handed out once

The slots of a pot are the indices below its capacity, each marked or free. `Exact` says that the number of
elements out of the pot is the number of marked slots, and `Allocates`, `Releases` and `Clears` say what
each call does to the marks, whatever the layout of the marks in the storage.
-/

namespace BofStd.Pot

/-- The slots that are marked in use or locked. -/
def out (s : Pot) : Finset Nat := (Finset.range s.capacity).filter fun i => s.inUse i

/-- The slots that are free. -/
def freeSlots (s : Pot) : Finset Nat := (Finset.range s.capacity).filter fun i => ¬ s.inUse i

/-- The count is the number of marked slots. -/
def Exact (s : Pot) : Prop := s.nbOut = s.out.card ∧ s.nbOut ≤ s.capacity

/-- `(s', r)` is the result of handing out a slot: it succeeds exactly when a slot is free, and marks the
free slot that it returns. -/
def Allocates (s s' : Pot) (r : Option Nat) : Prop :=
  (r.isSome ↔ s.freeSlots.Nonempty) ∧
    (∀ i, r = some i → i ∈ s.freeSlots ∧ s'.out = insert i s.out) ∧ (r = none → s' = s)

/-- Releasing through a pointer: a slot in use becomes free, and nothing else changes; otherwise there is
an error and nothing changes at all. -/
def Releases (s s' : Pot) (p : Option Int) (err : BofErr) : Prop :=
  (∀ i ∈ s.out, p = some (i : Int) → err = .noError ∧ s'.out = s.out.erase i) ∧
    ((∀ i ∈ s.out, p ≠ some (i : Int)) → err ≠ .noError ∧ s' = s)

/-- Clearing frees exactly the slots from `n` on. -/
def Clears (s s' : Pot) (n : Nat) : Prop := s'.out = s.out.filter fun i => i < n

/-- What one call may do. -/
def Conforms (s s' : Pot) : Op → Out → Prop
  | .get, .slot r => Allocates s s' r
  | .lock, .slot r => if s.param.magicNumber = 0 then Allocates s s' r else r = none ∧ s' = s
  | .release p, .err err => Releases s s' p err
  | .clearPot n, .err _ => Clears s s' n
  | .unlock _, .err _ => s'.out = s.out
  | .reset, .done => s'.out = ∅
  | .store _ _, .done => s'.out = s.out
  | _, _ => False

/-- A pot with these parameters hands out each slot at most once: in every state that a sequence of calls
reaches, the count is exact and every further call does what it should. -/
def AllocatesOnce (param : PotParam) : Prop :=
  ∀ (data : Nat → PotElement) (ops : List Op),
    let s := (Machine.run step (create param data) ops).1
    s.Exact ∧ ∀ op, Conforms s (step s op).1 op (step s op).2

end BofStd.Pot

/-!
## Iterating a pot while others use it

An iterator calls `GetFirstUsed(0)` and then `GetNextUsed` with what it got last, until it gets null; between its calls
others make theirs. `MissesNothing` says that the iteration finds what stays, and only what is there.
-/

namespace BofStd.Pot

open Machine

/-- Where the iterator is: before its first call, behind a slot that it got, or at the end. -/
inductive Cursor where
  | start
  | behind (i : Nat)
  | done
  deriving DecidableEq

/-- The cursor after a call that has returned `r`. -/
def Cursor.after : Option Nat → Cursor
  | some i => .behind i
  | none => .done

/-- A call of another client, or the next one of the iterator. -/
inductive IterOp where
  | call (op : Op)
  | next

def IterOp.isNext : IterOp → Bool
  | .call _ => false
  | .next => true

/-- One call; the output is the slot that the iterator gets. -/
def stepIter (s : Pot × Cursor) : IterOp → (Pot × Cursor) × Option Nat
  | .call op => (((step s.1 op).1, s.2), none)
  | .next =>
    match s.2 with
    | .start => ((s.1, .after (s.1.getFirstUsed 0)), s.1.getFirstUsed 0)
    | .behind i => ((s.1, .after (s.1.getNextUsed (some (i : Int)))), s.1.getNextUsed (some (i : Int)))
    | .done => (s, none)

/-- The iteration that starts in the state `s`, with the calls `evs` after the first one of the iterator. -/
def iterate (s : Pot) (evs : List IterOp) : (Pot × Cursor) × List (Option Nat) :=
  run stepIter (s, .start) (.next :: evs)

/-- The slots that the iterator has got. -/
def returned (s : Pot) (evs : List IterOp) : List Nat := (iterate s evs).2.filterMap id

/-- A slot of the pot that is in use and not locked. -/
def IsUsed (s : Pot) (i : Nat) : Prop := i < s.capacity ∧ s.inUse i = true ∧ s.locked i = false

/-- The slot `j` is used in the state where the iteration starts and in all later ones up to its last call. -/
def StaysUsed (s : Pot) (evs : List IterOp) (j : Nat) : Prop :=
  s.IsUsed j ∧ ∀ es, es <+: evs → (iterate s es).1.2 ≠ .done → (iterate s es).1.1.IsUsed j

/-- The iteration returns slots in increasing order, each of them used at the moment of the call, and when it is at its
end, which it reaches, every slot that stayed used has been returned. -/
structure MissesNothing (s : Pot) (evs : List IterOp) : Prop where
  increasing : (returned s evs).Pairwise (· < ·)
  used_at_call : ∀ es es', IterOp.next :: evs = es ++ .next :: es' → ∀ i,
    (stepIter (run stepIter (s, .start) es).1 .next).2 = some i → (run stepIter (s, .start) es).1.1.IsUsed i
  complete : (iterate s evs).1.2 = .done → ∀ j, StaysUsed s evs j → j ∈ returned s evs
  ends : s.capacity < (IterOp.next :: evs).countP IterOp.isNext → (iterate s evs).1.2 = .done

end BofStd.Pot
