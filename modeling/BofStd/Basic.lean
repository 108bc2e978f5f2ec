import Mathlib.Tactic.Basic
import Mathlib.Data.Nat.Init

/-!
# Machine words and error codes

Values of type `uint32_t` are natural numbers; an operation of the source whose result can leave the
range goes through `u32` or `u32Sub`, which wrap as the C++ operation does.
-/

namespace BofStd

/-- The error codes (`BOFERR`) that the modelled functions return. -/
inductive BofErr where
  | noError
  | einval
  | full
  | empty
  | lock
  | unlock
  | wrongMode
  | tooBig
  | cursor
  | index
  | noMore
  | duplicate
  | notFound
  | eof
  | internal
  | ebusy
  | notAvailable
  | cancel
  | etimedout
  | dontExist
  | ekeyrevoked
  | format
  | enoent
  | tooSmall
  | underrun
  | invalidState
  | init
  | eexist
  | invalidChecksum
  | invalidCommand
  | address
  | wrongSize
  | outOfRange
  | write
  | parser
  deriving DecidableEq, Repr

/-- `Bof_WaitForEvent` on an event of one instance, while no other thread runs: a flag that is set is cleared,
otherwise the wait times out. -/
def waitForEvent (event : Bool) : Bool × BofErr := if event then (false, .noError) else (event, .etimedout)

/-- The value of an expression of type `uint32_t` whose mathematical value is `n`. -/
def u32 (n : Nat) : Nat := if n < 4294967296 then n else n % 4294967296

/-- Subtraction of `uint32_t` values: it wraps below zero. -/
def u32Sub (a b : Nat) : Nat := if b ≤ a then a - b else a + 4294967296 - b

theorem u32_eq_mod (n : Nat) : u32 n = n % 4294967296 := by
  unfold u32
  split
  · rename_i h
    exact (Nat.mod_eq_of_lt h).symm
  · rfl

theorem u32_of_lt {n : Nat} (h : n < 4294967296) : u32 n = n := if_pos h

theorem u32Sub_of_le {a b : Nat} (h : b ≤ a) : u32Sub a b = a - b := if_pos h

theorem u32Sub_zero_one : u32Sub 0 1 = 4294967295 := rfl

end BofStd
