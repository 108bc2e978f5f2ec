import BofStd.Lib.Bytes
import BofStd.Lib.Memory

/-!
# Words in a byte memory

A memory is a function from addresses to bytes, and a word of `w` bytes is stored with the least significant
byte first. `loadWord` and `storeWord` are the two accesses; a store changes the bytes it covers and no
others, so that accesses to disjoint words do not disturb each other. A pointer is a word of eight bytes.
-/

namespace Memory

open Bytes

variable {mem mem' : Nat → UInt8} {w w' a b v : Nat}

/-- The word of `w` bytes stored at an address. -/
def loadWord (w : Nat) (mem : Nat → UInt8) (a : Nat) : Nat := valueLE (read mem a w)

/-- Store a word of `w` bytes at an address. -/
def storeWord (w : Nat) (mem : Nat → UInt8) (a v : Nat) : Nat → UInt8 := write mem a (bytesLE w v)

theorem loadWord_lt (w : Nat) (mem : Nat → UInt8) (a : Nat) : loadWord w mem a < 256 ^ w := by
  have h := valueLE_lt (read mem a w)
  rw [length_read] at h
  exact h

/-- Loading what was stored. -/
theorem loadWord_storeWord (mem : Nat → UInt8) (a : Nat) (h : v < 256 ^ w) :
    loadWord w (storeWord w mem a v) a = v := by
  have hself := read_write_self mem a (bytesLE w v)
  rw [length_bytesLE] at hself
  rw [loadWord, storeWord, hself, valueLE_bytesLE h]

/-- A store changes the bytes of the word from its address on. -/
theorem storeWord_of_outside (h : b < a ∨ a + w ≤ b) : storeWord w mem a v b = mem b := by
  apply write_of_outside
  rw [length_bytesLE]
  exact h

theorem loadWord_congr (h : ∀ j, a ≤ j → j < a + w → mem j = mem' j) : loadWord w mem a = loadWord w mem' a := by
  rw [loadWord, loadWord, read_congr h]

/-- A store leaves the words at disjoint places alone. -/
theorem loadWord_storeWord_of_disjoint (h : b + w' ≤ a ∨ a + w ≤ b) :
    loadWord w' (storeWord w mem a v) b = loadWord w' mem b :=
  loadWord_congr fun _ h1 h2 => storeWord_of_outside (by omega)

/-- The pointer stored at an address. -/
def load (mem : Nat → UInt8) (a : Nat) : Nat := loadWord 8 mem a

/-- Store a pointer at an address. -/
def store (mem : Nat → UInt8) (a v : Nat) : Nat → UInt8 := storeWord 8 mem a v

theorem load_lt (mem : Nat → UInt8) (a : Nat) : load mem a < 2 ^ 64 := loadWord_lt 8 mem a

theorem load_store (mem : Nat → UInt8) (a : Nat) (h : v < 2 ^ 64) : load (store mem a v) a = v :=
  loadWord_storeWord mem a h

theorem store_of_outside (h : b < a ∨ a + 8 ≤ b) : store mem a v b = mem b := storeWord_of_outside h

theorem load_congr (h : ∀ j, a ≤ j → j < a + 8 → mem j = mem' j) : load mem a = load mem' a := loadWord_congr h

theorem load_store_of_disjoint (h : b + 8 ≤ a ∨ a + 8 ≤ b) : load (store mem a v) b = load mem b :=
  loadWord_storeWord_of_disjoint h

end Memory
