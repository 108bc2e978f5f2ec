import BofStd.BofStackSpec
import BofStd.Proofs.BinSerializerProofs

/-!
# `BofStack`: what a push leaves and what a pop returns

A push that returns `true` has put its bytes behind the content (`pushBlock_eq_true`), and a pop returns the bytes at
the end of the content (`popBlock_of_content`). A word that one CPU has stored is what another one loads, if it
swaps the bytes exactly when the byte orders differ (`endianScalar_load_store`).
-/

namespace BofStd

open Bytes

/-- Swapping or not, as the byte orders differ. -/
theorem endianScalar_load_store (cpu cpu' : CpuEndianness) {w v : Nat} (h : v < 256 ^ w) :
    endianScalar (decide (cpu ≠ cpu')) w (cpu'.load (cpu.store w v)) = v := by
  have hswap : endianScalar true w (bswap w v) = v := by
    rw [endianScalar_true (bswap_lt w v), bswap, bytesLE_bswap, List.reverse_reverse, valueLE_bytesLE h]
  by_cases hcpu : cpu = cpu'
  · subst hcpu
    rw [cpu.load_store h, decide_eq_false (not_not_intro rfl)]
    rfl
  · have hload : cpu'.load (cpu.store w v) = bswap w v := by
      cases cpu with
      | big =>
        cases cpu' with
        | big => exact absurd rfl hcpu
        | little => rfl
      | little =>
        cases cpu' with
        | big => rfl
        | little => exact absurd rfl hcpu
    rw [hload, decide_eq_true hcpu, hswap]

namespace BofStack

variable {cpu : CpuEndianness} {s s' : BofStack} {bytes l : List UInt8} {w v : Nat}

/-! ## The stack pointer -/

theorem setStackPointer_of_lt {ptr : Nat} (h : ptr < s.MaxStackSize_U32) :
    (s.setStackPointer ptr).2 = s.withPointer ptr := by
  rw [setStackPointer, if_pos h]
  rfl

theorem setStackPointer_of_not_lt {ptr : Nat} (h : ¬ptr < s.MaxStackSize_U32) : (s.setStackPointer ptr).2 = s := by
  rw [setStackPointer, if_neg h]

theorem setStackPointer_stackPointer (s : BofStack) (ptr : Nat) :
    (s.setStackPointer ptr).2.stackPointer = if ptr < s.MaxStackSize_U32 then ptr else s.stackPointer := by
  unfold setStackPointer
  split <;> rfl

theorem setStackPointer_mpStack (s : BofStack) (ptr : Nat) : (s.setStackPointer ptr).2.mpStack_U8 = s.mpStack_U8 := by
  unfold setStackPointer
  split <;> rfl

theorem setStackPointer_maxStackSize (s : BofStack) (ptr : Nat) :
    (s.setStackPointer ptr).2.MaxStackSize_U32 = s.MaxStackSize_U32 := by
  unfold setStackPointer
  split <;> rfl

theorem setStackPointer_swapByte (s : BofStack) (ptr : Nat) : (s.setStackPointer ptr).2.SwapByte_B = s.SwapByte_B := by
  unfold setStackPointer
  split <;> rfl

/-! ## Pushes -/

theorem pushed_append (s : BofStack) (bytes bytes' : List UInt8) :
    (s.pushed bytes).pushed bytes' = s.pushed (bytes ++ bytes') := by
  unfold pushed
  rw [Memory.write_append, List.length_append, Nat.add_assoc]

theorem pushed_nil (s : BofStack) : s.pushed [] = s := rfl

@[simp] theorem pushed_stackPointer (s : BofStack) (bytes : List UInt8) :
    (s.pushed bytes).stackPointer = s.stackPointer + bytes.length := rfl

@[simp] theorem pushed_maxStackSize (s : BofStack) (bytes : List UInt8) :
    (s.pushed bytes).MaxStackSize_U32 = s.MaxStackSize_U32 := rfl

@[simp] theorem pushed_swapByte (s : BofStack) (bytes : List UInt8) : (s.pushed bytes).SwapByte_B = s.SwapByte_B := rfl

/-- What a push that succeeds has done. -/
theorem pushBlock_eq_true (h : s.pushBlock bytes = some (true, s')) :
    s.stackPointer + bytes.length ≤ s.MaxStackSize_U32 ∧ s' = s.pushed bytes := by
  unfold pushBlock at h
  split at h
  · unfold write at h
    split at h
    · next hle =>
      rw [Option.bind_some, advance, if_pos hle] at h
      obtain ⟨-, rfl⟩ := Prod.mk.inj (Option.some.inj h)
      exact ⟨hle, rfl⟩
    · exact nomatch h
  · exact nomatch h

theorem pushWord_eq_true (hswap : s.SwapByte_B = false) (h : s.pushWord cpu w v = some (true, s')) :
    s.stackPointer + w ≤ s.MaxStackSize_U32 ∧ s' = s.pushed (cpu.store w v) := by
  obtain ⟨hle, rfl⟩ := pushBlock_eq_true h
  rw [CpuEndianness.length_store] at hle
  rw [hswap]
  exact ⟨hle, rfl⟩

/-! ## Pops -/

theorem length_content (s : BofStack) : s.content.length = s.stackPointer := Memory.length_read ..

theorem content_withPointer (h : s.content = l ++ bytes) : (s.withPointer l.length).content = l := by
  have hlen : s.stackPointer = l.length + bytes.length := by
    rw [← length_content, h, List.length_append]
  rw [content, hlen, Memory.read_add] at h
  exact (List.append_inj h (Memory.length_read ..)).1

theorem popBlock_of_content (h : s.content = l ++ bytes) (hle : s.stackPointer ≤ s.MaxStackSize_U32) :
    s.popBlock bytes.length = some (some bytes, s.withPointer l.length) := by
  have hlen : s.stackPointer = l.length + bytes.length := by
    rw [← length_content, h, List.length_append]
  have hsub : s.stackPointer - bytes.length = l.length := by omega
  have hread : Memory.read s.mpStack_U8 l.length bytes.length = bytes := by
    rw [content, hlen, Memory.read_add, Nat.zero_add] at h
    exact (List.append_inj h (Memory.length_read ..)).2
  rw [popBlock, if_pos (by omega), hsub, read, if_pos (by omega), hread]
  rfl

/-- A word that has been stored by a CPU of either byte order. -/
theorem popWord_of_content {cpu' : CpuEndianness} (h : s.content = l ++ cpu.store w v) (hv : v < 256 ^ w)
    (hle : s.stackPointer ≤ s.MaxStackSize_U32) (hswap : s.SwapByte_B = decide (cpu ≠ cpu')) :
    s.popWord cpu' w = some (some v, s.withPointer l.length) := by
  have hpop := popBlock_of_content h hle
  rw [CpuEndianness.length_store] at hpop
  rw [popWord, hpop, Option.map_some, Option.map_some, hswap, endianScalar_load_store cpu cpu' hv]

end BofStack

end BofStd

/-!
# `BofStack` as a bounded stack

One lemma for each kind of call, in a state whose stack pointer is inside of the array: the call is all right exactly if
the sum that it computes fits its type. The pushes of words have no such condition, since the stack is smaller than
`2^31` bytes.
-/

namespace BofStd.BofStack

open Machine Bytes

variable {cpu : CpuEndianness} {max : Nat} {s : BofStack}

/-- The states of a stack of `max` bytes. -/
structure Inside (max : Nat) (s : BofStack) : Prop where
  size : s.MaxStackSize_U32 = max
  pointer : s.stackPointer ≤ max

/-! ## Blocks -/

/-- The test for room of a block whose end is a word of 32 bits. -/
theorem fits_iff {n : Nat} (h : s.stackPointer + n < 2 ^ 32) :
    s.fits n = true ↔ s.stackPointer + n ≤ s.MaxStackSize_U32 := by
  simp only [fits, Nat.mod_eq_of_lt h, decide_eq_true_eq]

/-- Behind the end of the words the sum wraps, and there always seems to be room. -/
theorem fits_of_wrap (hs : Inside max s) {n : Nat} (hn : n < 2 ^ 32) (h : 2 ^ 32 ≤ s.stackPointer + n) :
    s.fits n = true := by
  obtain ⟨hsize, hptr⟩ := hs
  simp only [fits, decide_eq_true_eq]
  omega

theorem pushBlock_of_fits {bytes : List UInt8} (h : s.stackPointer + bytes.length < 2 ^ 32) :
    s.pushBlock bytes =
      some (if s.stackPointer + bytes.length ≤ s.MaxStackSize_U32 then (true, s.pushed bytes) else (false, s)) := by
  by_cases hfits : s.stackPointer + bytes.length ≤ s.MaxStackSize_U32
  · rw [pushBlock, if_pos ((fits_iff h).mpr hfits), write, if_pos hfits, Option.bind_some, advance, if_pos hfits,
      if_pos hfits]
    rfl
  · rw [pushBlock, if_neg (mt (fits_iff h).mp hfits), if_neg hfits]

/-- A block that is pushed is popped. -/
theorem popBlock_pushed (bytes : List UInt8) (h : s.stackPointer + bytes.length ≤ s.MaxStackSize_U32) :
    (s.pushed bytes).popBlock bytes.length = some (some bytes, (s.pushed bytes).withPointer s.stackPointer) := by
  have hcontent : (s.pushed bytes).content = s.content ++ bytes := by
    have hbehind := Memory.read_write_behind s.mpStack_U8 0 s.stackPointer bytes
    rw [Nat.zero_add] at hbehind
    exact hbehind
  have hpop := popBlock_of_content hcontent h
  rwa [length_content] at hpop

/-- A push of a block. -/
theorem stepOk_pushBlock_iff (hs : Inside max s) (hmax : max < 2 ^ 31) (bytes : List UInt8) (hlen : bytes.length < 2 ^ 32) :
    StepOk cpu max s (.pushBlock bytes hlen) ↔ s.stackPointer + bytes.length < 2 ^ 32 := by
  obtain ⟨hsize, hptr⟩ := hs
  constructor
  · rintro ⟨ok, v, s', hexec, -⟩
    by_contra hwrap
    have hfits := fits_of_wrap ⟨hsize, hptr⟩ hlen (Nat.le_of_not_lt hwrap)
    have hnone : s.pushBlock bytes = none := by
      rw [pushBlock, if_pos hfits, write, if_neg (by omega)]
      rfl
    simp [exec, hnone] at hexec
  · intro h
    have hpush := pushBlock_of_fits h
    have hofNat : (UInt32.ofNat bytes.length).toNat = bytes.length := Nat.mod_eq_of_lt hlen
    by_cases hfits : s.stackPointer + bytes.length ≤ s.MaxStackSize_U32
    · rw [if_pos hfits] at hpush
      refine ⟨true, .nothing, s.pushed bytes, ?_, ?_, ?_, ?_⟩
      · simp [exec, hpush]
      · simp
        omega
      · simp
      · rintro - pop value hinv
        obtain ⟨rfl, rfl⟩ := Prod.mk.inj (Option.some.inj hinv)
        have hpop := popBlock_pushed bytes hfits
        refine ⟨(s.pushed bytes).withPointer s.stackPointer, ?_, rfl⟩
        simp only [exec, hofNat, hpop, Option.map_some]
        rfl
    · rw [if_neg hfits] at hpush
      refine ⟨false, .nothing, s, ?_, hptr, ?_, ?_⟩
      · simp [exec, hpush]
      · intro _
        rfl
      · simp

/-! ## Words -/

/-- Swapping twice. -/
theorem endianScalar_endianScalar (swap : Bool) {w v : Nat} (h : v < 256 ^ w) :
    endianScalar swap w (endianScalar swap w v) = v := by
  cases swap with
  | false => rfl
  | true =>
    rw [endianScalar_true h, endianScalar_true (bswap_lt w v), bswap, bytesLE_bswap, List.reverse_reverse,
      valueLE_bytesLE h]

theorem endianScalar_lt (swap : Bool) {w v : Nat} (h : v < 256 ^ w) : endianScalar swap w v < 256 ^ w := by
  cases swap with
  | false => exact h
  | true =>
    rw [endianScalar_true h]
    exact bswap_lt w v

theorem Width.bytes_le (w : Width) : w.bytes ≤ 8 := by cases w <;> decide

/-- A push of a word. -/
theorem stepOk_push (hs : Inside max s) (hmax : max < 2 ^ 31) (w : Width) (v : Fin (256 ^ w.bytes)) :
    StepOk cpu max s (.push w v) := by
  obtain ⟨hsize, hptr⟩ := hs
  have hw := w.bytes_le
  have hlen := cpu.length_store w.bytes (endianScalar s.SwapByte_B w.bytes v.val)
  have hpush := pushBlock_of_fits (hlen.symm ▸ (by omega : s.stackPointer + w.bytes < 2 ^ 32))
  rw [hlen] at hpush
  by_cases hfits : s.stackPointer + w.bytes ≤ s.MaxStackSize_U32
  · rw [if_pos hfits] at hpush
    refine ⟨true, .nothing, s.pushed (cpu.store w.bytes (endianScalar s.SwapByte_B w.bytes v.val)), ?_, ?_, ?_, ?_⟩
    · simp [exec, pushWord, hpush]
    · simp
      omega
    · simp
    · rintro - pop value hinv
      obtain ⟨rfl, rfl⟩ := Prod.mk.inj (Option.some.inj hinv)
      have hpop := popBlock_pushed (s := s) (cpu.store w.bytes (endianScalar s.SwapByte_B w.bytes v.val)) (by omega)
      rw [hlen] at hpop
      refine ⟨(s.pushed (cpu.store w.bytes (endianScalar s.SwapByte_B w.bytes v.val))).withPointer s.stackPointer, ?_,
        rfl⟩
      have hload : cpu.load (cpu.store w.bytes (endianScalar s.SwapByte_B w.bytes v.val)) =
          endianScalar s.SwapByte_B w.bytes v.val := cpu.load_store (endianScalar_lt _ v.isLt)
      simp only [exec, popWord, hpop, Option.map_some, hload, pushed_swapByte, endianScalar_endianScalar _ v.isLt]
      rfl
  · rw [if_neg hfits] at hpush
    refine ⟨false, .nothing, s, ?_, hptr, ?_, ?_⟩
    · simp [exec, pushWord, hpush]
    · intro _
      rfl
    · simp

/-! ## Skips -/

/-- A push of a number of bytes that are not written. -/
theorem stepOk_pushSkip_iff (hs : Inside max s) (hmax : max < 2 ^ 31) (n : UInt32) :
    StepOk cpu max s (.pushSkip n) ↔ s.stackPointer + n.toNat < 2 ^ 32 := by
  have hn := n.toNat_lt
  constructor
  · rintro ⟨ok, v, s', hexec, -⟩
    by_contra hwrap
    have hfits := fits_of_wrap hs hn (Nat.le_of_not_lt hwrap)
    obtain ⟨hsize, hptr⟩ := hs
    have hnone : s.pushSkip n.toNat = none := by
      rw [pushSkip, if_pos hfits, advance, if_neg (by omega)]
      rfl
    simp [exec, hnone] at hexec
  · intro h
    obtain ⟨hsize, hptr⟩ := hs
    by_cases hfits : s.stackPointer + n.toNat ≤ s.MaxStackSize_U32
    · have hpush : s.pushSkip n.toNat = some (true, s.withPointer (s.stackPointer + n.toNat)) := by
        rw [pushSkip, if_pos ((fits_iff h).mpr hfits), advance, if_pos hfits]
        rfl
      refine ⟨true, .nothing, s.withPointer (s.stackPointer + n.toNat), ?_, ?_, ?_, ?_⟩
      · simp [exec, hpush]
      · show s.stackPointer + n.toNat ≤ max
        omega
      · simp
      · rintro - pop value hinv
        obtain ⟨rfl, rfl⟩ := Prod.mk.inj (Option.some.inj hinv)
        refine ⟨s, ?_, rfl⟩
        have hpop : (s.withPointer (s.stackPointer + n.toNat)).popSkip n.toNat = (true, s) := by
          have hle : n.toNat ≤ (s.withPointer (s.stackPointer + n.toNat)).stackPointer := Nat.le_add_left _ _
          rw [popSkip, if_pos hle]
          simp [withPointer]
        simp only [exec, hpop]
    · have hpush : s.pushSkip n.toNat = some (false, s) := by rw [pushSkip, if_neg (mt (fits_iff h).mp hfits)]
      refine ⟨false, .nothing, s, ?_, hptr, ?_, ?_⟩
      · simp [exec, hpush]
      · intro _
        rfl
      · simp

/-! ## Pops -/

/-- A call that is no push is all right if it has a result, stays in the array, and changes nothing when it fails. -/
theorem stepOk_of_exec {op : Op} {ok : Bool} {v : Value} {s' : BofStack} (hexec : s.exec cpu op = some ((ok, v), s'))
    (hptr : s'.stackPointer ≤ max) (hsame : ok = false → s' = s) (hinv : op.inverse = none) : StepOk cpu max s op := by
  refine ⟨ok, v, s', hexec, hptr, hsame, ?_⟩
  intro _ pop value h
  rw [hinv] at h
  exact nomatch h

/-- A pop of a block has a result in every state. -/
theorem popBlock_eq (hs : Inside max s) (n : Nat) : s.popBlock n =
    some (if n ≤ s.stackPointer then
      (some (Memory.read s.mpStack_U8 (s.stackPointer - n) n), s.withPointer (s.stackPointer - n)) else (none, s)) := by
  obtain ⟨hsize, hptr⟩ := hs
  by_cases hn : n ≤ s.stackPointer
  · rw [popBlock, if_pos hn, if_pos hn, read, if_pos (by omega)]
    rfl
  · rw [popBlock, if_neg hn, if_neg hn]

theorem stepOk_popBlock (hs : Inside max s) (n : UInt32) : StepOk cpu max s (.popBlock n) := by
  have hpop := popBlock_eq hs n.toNat
  by_cases hn : n.toNat ≤ s.stackPointer
  · rw [if_pos hn] at hpop
    have hexec : s.exec cpu (.popBlock n) =
        some ((true, .block (Memory.read s.mpStack_U8 (s.stackPointer - n.toNat) n.toNat)),
          s.withPointer (s.stackPointer - n.toNat)) := by
      simp only [exec, hpop, Option.map_some]
      rfl
    exact stepOk_of_exec hexec (Nat.le_trans (Nat.sub_le _ _) hs.pointer) nofun rfl
  · rw [if_neg hn] at hpop
    have hexec : s.exec cpu (.popBlock n) = some ((false, .nothing), s) := by
      simp only [exec, hpop, Option.map_some]
      rfl
    exact stepOk_of_exec hexec hs.pointer (fun _ => rfl) rfl

theorem stepOk_pop (hs : Inside max s) (w : Width) : StepOk cpu max s (.pop w) := by
  have hpop := popBlock_eq hs w.bytes
  by_cases hn : w.bytes ≤ s.stackPointer
  · rw [if_pos hn] at hpop
    have hexec : s.exec cpu (.pop w) =
        some ((true, .word (endianScalar s.SwapByte_B w.bytes
          (cpu.load (Memory.read s.mpStack_U8 (s.stackPointer - w.bytes) w.bytes)))),
          s.withPointer (s.stackPointer - w.bytes)) := by
      simp only [exec, popWord, hpop, Option.map_some]
      rfl
    exact stepOk_of_exec hexec (Nat.le_trans (Nat.sub_le _ _) hs.pointer) (by rintro ⟨⟩) rfl
  · rw [if_neg hn] at hpop
    have hexec : s.exec cpu (.pop w) = some ((false, .nothing), s) := by
      simp only [exec, popWord, hpop, Option.map_some]
      rfl
    exact stepOk_of_exec hexec hs.pointer (fun _ => rfl) rfl

theorem stepOk_popSkip (hs : Inside max s) (n : UInt32) : StepOk cpu max s (.popSkip n) := by
  refine stepOk_of_exec rfl ?_ ?_ rfl
  · unfold popSkip
    split
    · exact Nat.le_trans (Nat.sub_le _ _) hs.pointer
    · exact hs.pointer
  · unfold popSkip
    split
    · simp
    · simp

/-! ## The stack pointer -/

theorem stepOk_setStackPointer (hs : Inside max s) (ptr : UInt32) : StepOk cpu max s (.setStackPointer ptr) := by
  obtain ⟨hsize, hptr⟩ := hs
  refine stepOk_of_exec rfl ?_ ?_ rfl
  · rw [setStackPointer_stackPointer]
    split
    · omega
    · exact hptr
  · unfold setStackPointer
    split
    · simp
    · simp

/-- The conversions to `int` keep the stack pointer and the size. -/
theorem adjust_eq (hs : Inside max s) (hmax : max < 2 ^ 31) (offset : Int) :
    s.adjustStackBufferLocation offset =
      if -2 ^ 31 ≤ (s.stackPointer : Int) + offset ∧ (s.stackPointer : Int) + offset < 2 ^ 31 then
        if (s.stackPointer : Int) + offset ≤ s.MaxStackSize_U32 ∧ (s.stackPointer : Int) + offset ≥ 0 then
          some (true, s.withPointer ((s.stackPointer : Int) + offset).toNat)
        else some (false, s)
      else none := by
  obtain ⟨hsize, hptr⟩ := hs
  have hself : (s.stackPointer : Int).bmod (2 ^ 32) = s.stackPointer := Int.bmod_eq_of_le (by omega) (by omega)
  have hsizes : (s.MaxStackSize_U32 : Int).bmod (2 ^ 32) = s.MaxStackSize_U32 :=
    Int.bmod_eq_of_le (by omega) (by omega)
  unfold adjustStackBufferLocation
  rw [hself, hsizes]
  rfl

/-- The sum is one of two `int`s. -/
theorem stepOk_adjust_iff (hs : Inside max s) (hmax : max < 2 ^ 31) (offset : Int32) :
    StepOk cpu max s (.adjustStackBufferLocation offset) ↔ s.stackPointer + offset.toInt < 2 ^ 31 := by
  have hadjust := adjust_eq hs hmax offset.toInt
  have hlow := offset.le_toInt
  obtain ⟨hsize, hptr⟩ := hs
  constructor
  · rintro ⟨ok, v, s', hexec, -⟩
    by_contra hover
    rw [if_neg (by omega)] at hadjust
    simp [exec, hadjust] at hexec
  · intro h
    rw [if_pos (by omega)] at hadjust
    by_cases hin : (s.stackPointer : Int) + offset.toInt ≤ s.MaxStackSize_U32 ∧ (s.stackPointer : Int) + offset.toInt ≥ 0
    · rw [if_pos hin] at hadjust
      have hexec : s.exec cpu (.adjustStackBufferLocation offset) =
          some ((true, .nothing), s.withPointer ((s.stackPointer : Int) + offset.toInt).toNat) := by
        simp [exec, hadjust]
      refine stepOk_of_exec hexec ?_ nofun rfl
      show ((s.stackPointer : Int) + offset.toInt).toNat ≤ max
      omega
    · rw [if_neg hin] at hadjust
      have hexec : s.exec cpu (.adjustStackBufferLocation offset) = some ((false, .nothing), s) := by
        simp [exec, hadjust]
      exact stepOk_of_exec hexec hptr (fun _ => rfl) rfl

/-! ## Runs -/

/-- One call. -/
theorem stepOk_iff (hs : Inside max s) (hmax : max < 2 ^ 31) (op : Op) : StepOk cpu max s op ↔ StepCond s op := by
  cases op with
  | push w v => exact iff_of_true (stepOk_push hs hmax w v) trivial
  | pushBlock bytes h => exact stepOk_pushBlock_iff hs hmax bytes h
  | pushSkip n => exact stepOk_pushSkip_iff hs hmax n
  | pop w => exact iff_of_true (stepOk_pop hs w) trivial
  | popBlock n => exact iff_of_true (stepOk_popBlock hs n) trivial
  | popSkip n => exact iff_of_true (stepOk_popSkip hs n) trivial
  | setStackPointer ptr => exact iff_of_true (stepOk_setStackPointer hs ptr) trivial
  | adjustStackBufferLocation offset => exact stepOk_adjust_iff hs hmax offset

theorem write_size {i : Nat} {bytes : List UInt8} {s' : BofStack} (h : s.write i bytes = some s') :
    s'.MaxStackSize_U32 = s.MaxStackSize_U32 := by
  unfold write at h
  split at h
  · obtain rfl := Option.some.inj h
    rfl
  · exact nomatch h

theorem advance_size {n : Nat} {s' : BofStack} (h : s.advance n = some s') :
    s'.MaxStackSize_U32 = s.MaxStackSize_U32 := by
  unfold advance at h
  split at h
  · obtain rfl := Option.some.inj h
    rfl
  · exact nomatch h

theorem pushBlock_size {bytes : List UInt8} {r : Bool × BofStack} (h : s.pushBlock bytes = some r) :
    r.2.MaxStackSize_U32 = s.MaxStackSize_U32 := by
  unfold pushBlock at h
  split at h
  · obtain ⟨s₂, hs₂, rfl⟩ := Option.map_eq_some_iff.mp h
    obtain ⟨s₁, hwrite, hadvance⟩ := Option.bind_eq_some_iff.mp hs₂
    rw [advance_size hadvance, write_size hwrite]
  · obtain rfl := Option.some.inj h
    rfl

theorem popBlock_size {n : Nat} {r : Option (List UInt8) × BofStack} (h : s.popBlock n = some r) :
    r.2.MaxStackSize_U32 = s.MaxStackSize_U32 := by
  unfold popBlock at h
  split at h
  · obtain ⟨bytes, -, rfl⟩ := Option.map_eq_some_iff.mp h
    rfl
  · obtain rfl := Option.some.inj h
    rfl

theorem adjust_size (hs : Inside max s) (hmax : max < 2 ^ 31) {offset : Int} {r : Bool × BofStack}
    (h : s.adjustStackBufferLocation offset = some r) : r.2.MaxStackSize_U32 = s.MaxStackSize_U32 := by
  rw [adjust_eq hs hmax] at h
  split at h
  · split at h
    · obtain rfl := Option.some.inj h
      rfl
    · obtain rfl := Option.some.inj h
      rfl
  · exact nomatch h

/-- No call changes the size of the array. -/
theorem exec_size (hs : Inside max s) (hmax : max < 2 ^ 31) {op : Op} {r : Result × BofStack} (h : s.exec cpu op = some r) :
    r.2.MaxStackSize_U32 = s.MaxStackSize_U32 := by
  cases op with
  | push w v =>
    obtain ⟨r', hpush, rfl⟩ := Option.map_eq_some_iff.mp h
    exact pushBlock_size hpush
  | pushBlock bytes hlen =>
    obtain ⟨r', hpush, rfl⟩ := Option.map_eq_some_iff.mp h
    exact pushBlock_size hpush
  | pushSkip n =>
    obtain ⟨r', hpush, rfl⟩ := Option.map_eq_some_iff.mp h
    unfold pushSkip at hpush
    split at hpush
    · obtain ⟨s', hadvance, rfl⟩ := Option.map_eq_some_iff.mp hpush
      exact advance_size hadvance
    · obtain rfl := Option.some.inj hpush
      rfl
  | pop w =>
    obtain ⟨r', hpop, rfl⟩ := Option.map_eq_some_iff.mp h
    obtain ⟨r'', hblock, rfl⟩ := Option.map_eq_some_iff.mp hpop
    exact popBlock_size hblock
  | popBlock n =>
    obtain ⟨r', hpop, rfl⟩ := Option.map_eq_some_iff.mp h
    exact popBlock_size hpop
  | popSkip n =>
    obtain rfl := Option.some.inj h
    show (s.popSkip n.toNat).2.MaxStackSize_U32 = _
    unfold popSkip
    split <;> rfl
  | setStackPointer ptr =>
    obtain rfl := Option.some.inj h
    exact setStackPointer_maxStackSize s ptr.toNat
  | adjustStackBufferLocation offset =>
    rw [exec] at h
    obtain ⟨r', hadjust, rfl⟩ := Option.map_eq_some_iff.mp h
    exact adjust_size hs hmax hadjust

/-- A call that is all right leads to a state of the stack. -/
theorem StepOk.inside {op : Op} (hs : Inside max s) (hmax : max < 2 ^ 31) (h : StepOk cpu max s op) : Inside max (step cpu s op).1 := by
  obtain ⟨ok, v, s', hexec, hptr, -, -⟩ := h
  have hstep : (step cpu s op).1 = s' := by simp only [step, hexec]
  rw [hstep]
  exact ⟨(exec_size hs hmax hexec).trans hs.size, hptr⟩

/-- All the calls of a run are all right exactly if the sums that they compute fit their types. -/
theorem bounded_lifo_iff (cpu : CpuEndianness) (hmax : max < 2 ^ 31) (swapByte : Bool) (mem : Nat → UInt8)
    (ops : List Op) :
    Meets (step cpu) (StepOk cpu max) (create max swapByte mem) ops ↔
      Meets (step cpu) StepCond (create max swapByte mem) ops := by
  have hinside : Inside max (create max swapByte mem) := ⟨rfl, Nat.zero_le max⟩
  have hguard : Meets (step cpu) (fun _ _ => True) (create max swapByte mem) ops :=
    meets_of_forall (fun _ _ => trivial) _ _
  have hiff : ∀ s op, Inside max s → True → (StepOk cpu max s op ↔ StepCond s op) :=
    fun s op hs _ => stepOk_iff hs hmax op
  have hkeep : ∀ s op, Inside max s → True → StepCond s op → Inside max (step cpu s op).1 :=
    fun s op hs _ hcond => ((stepOk_iff hs hmax op).mpr hcond).inside hs hmax
  exact meets_iff_meets_of_inv hiff hkeep hinside hguard

/-- A push of a word and of a block, a skip, and calls that fail. -/
theorem bounded_lifo_calls :
    Meets (step .big) (StepOk .big 16) (create 16 true fun _ => 0)
      [.push .w32 ⟨0x01020304, by decide⟩, .pushBlock [1, 2, 3] (by decide), .pushSkip 10, .pushSkip 9,
        .setStackPointer 16, .adjustStackBufferLocation (-16), .pop .w64] :=
  (bounded_lifo_iff .big (by decide) true (fun _ => 0) _).mpr
    ⟨trivial, by decide, by decide, by decide, trivial, by decide, trivial, trivial⟩

/-- A skip of `2^32 - 1` bytes behind one byte: the sum is zero, and the stack pointer leaves the array. -/
theorem not_bounded_lifo_skip :
    ¬Meets (step .little) (StepOk .little 16) (create 16 false fun _ => 0) [.push .w8 0, .pushSkip 0xFFFFFFFF] := by
  rintro ⟨-, ⟨ok, v, s', hexec, -⟩, -⟩
  exact nomatch hexec

end BofStd.BofStack
