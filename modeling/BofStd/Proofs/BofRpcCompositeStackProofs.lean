import BofStd.BofRpcSpec
import BofStd.Proofs.BofRpcProofs

/-!
# `BofRpc`: what the pushes of composite arguments leave

No push changes what is below the stack pointer (`Extends`), so every argument is found in the frame where it has been
pushed. An array ends with the two words of its sizes. What is no array only appends its bytes.
-/

namespace BofStd

open BofStack

variable {cpu : CpuEndianness} {s s' s'' : BofStack} {answer : Bool} {value : BofRpc.Values}

/-! ## What is below the stack pointer -/

/-- `s'` has what is in `s` below its stack pointer. -/
structure BofStack.Extends (s s' : BofStack) : Prop where
  pointer : s.stackPointer ≤ s'.stackPointer
  below : ∀ j, j < s.stackPointer → s'.mpStack_U8 j = s.mpStack_U8 j
  size : s'.MaxStackSize_U32 = s.MaxStackSize_U32
  swap : s'.SwapByte_B = s.SwapByte_B

namespace BofStack

theorem Extends.refl (s : BofStack) : s.Extends s := ⟨Nat.le_refl _, fun _ _ => rfl, rfl, rfl⟩

theorem Extends.trans (h : s.Extends s') (h' : s'.Extends s'') : s.Extends s'' where
  pointer := h.pointer.trans h'.pointer
  below j hj := (h'.below j (hj.trans_le h.pointer)).trans (h.below j hj)
  size := h'.size.trans h.size
  swap := h'.swap.trans h.swap

theorem extends_pushed (s : BofStack) (bytes : List UInt8) : s.Extends (s.pushed bytes) where
  pointer := Nat.le_add_right _ _
  below _ hj := Memory.write_of_outside _ _ _ (.inl hj)
  size := rfl
  swap := rfl

/-- A region below the stack pointer. -/
theorem Extends.read (h : s.Extends s') {i n : Nat} (hle : i + n ≤ s.stackPointer) :
    Memory.read s'.mpStack_U8 i n = Memory.read s.mpStack_U8 i n :=
  Memory.read_congr fun j _ hj => h.below j (hj.trans_le hle)

/-- A word as an `int`. -/
theorem bmod_of_word {n : Nat} (h : n < 2 ^ 32) :
    (n : Int).bmod (2 ^ 32) = n ∧ n < 2 ^ 31 ∨ (n : Int).bmod (2 ^ 32) = n - 2 ^ 32 ∧ 2 ^ 31 ≤ n := by
  rcases Nat.lt_or_ge n (2 ^ 31) with hlt | hge
  · exact .inl ⟨Int.bmod_eq_of_le (by omega) (by omega), hlt⟩
  · have hsub : ((n : Int) - ((2 ^ 32 : Nat) : Int)).bmod (2 ^ 32) = n - ((2 ^ 32 : Nat) : Int) :=
      Int.bmod_eq_of_le (by omega) (by omega)
    rw [Int.sub_bmod_right] at hsub
    exact .inr ⟨hsub, hge⟩

/-- `AdjustStackBufferLocation` behind a block that has been written: the stack pointer is set behind the block, or it
stays where it is. -/
theorem adjust_pointer {n : Nat} {sts : Bool} (hle : s.stackPointer + n ≤ s.MaxStackSize_U32)
    (hmax : s.MaxStackSize_U32 < 2 ^ 32)
    (h : s.adjustStackBufferLocation ((n : Int).bmod (2 ^ 32)) = some (sts, s')) :
    s' = s ∨ s' = s.withPointer (s.stackPointer + n) := by
  unfold adjustStackBufferLocation at h
  have hptr := bmod_of_word (n := s.stackPointer) (by omega)
  have hn := bmod_of_word (n := n) (by omega)
  generalize (s.MaxStackSize_U32 : Int).bmod (2 ^ 32) = size at h
  generalize (s.stackPointer : Int).bmod (2 ^ 32) = ptr at h hptr
  generalize (n : Int).bmod (2 ^ 32) = offset at h hn
  by_cases hint : -2 ^ 31 ≤ ptr + offset ∧ ptr + offset < 2 ^ 31
  · by_cases hin : ptr + offset ≤ size ∧ ptr + offset ≥ 0
    · rw [if_pos hint, if_pos hin] at h
      obtain ⟨-, rfl⟩ := Prod.mk.inj (Option.some.inj h)
      have hsum : (ptr + offset).toNat = s.stackPointer + n := by omega
      exact .inr (by rw [hsum]; rfl)
    · rw [if_pos hint, if_neg hin] at h
      obtain ⟨-, rfl⟩ := Prod.mk.inj (Option.some.inj h)
      exact .inl rfl
  · rw [if_neg hint] at h
    exact nomatch h
end BofStack

namespace BofRpc

/-! ## The pushes -/

theorem write_eq_some {i : Nat} {bytes : List UInt8} (h : s.write i bytes = some s') :
    i + bytes.length ≤ s.MaxStackSize_U32 ∧ s' = { s with mpStack_U8 := Memory.write s.mpStack_U8 i bytes } := by
  unfold BofStack.write at h
  split at h
  · next hle => exact ⟨hle, (Option.some.inj h).symm⟩
  · exact nomatch h

/-- A block that is written at the stack pointer, and `AdjustStackBufferLocation`. -/
theorem extends_write_adjust {s₁ s₂ : BofStack} {bytes : List UInt8} {sts : Bool}
    (hmax : s.MaxStackSize_U32 < 2 ^ 32) (hwrite : s.write s.stackPointer bytes = some s₁)
    (hadjust : s₁.adjustStackBufferLocation ((bytes.length : Int).bmod (2 ^ 32)) = some (sts, s₂)) :
    s.Extends s₂ ∧ (bytes.length = 0 → s₂.stackPointer = s.stackPointer) := by
  obtain ⟨hle, hs₁⟩ := write_eq_some hwrite
  have hpointer : s₁.stackPointer = s.stackPointer := by rw [hs₁]
  have hsize : s₁.MaxStackSize_U32 = s.MaxStackSize_U32 := by rw [hs₁]
  have hswap : s₁.SwapByte_B = s.SwapByte_B := by rw [hs₁]
  have hbelow : ∀ j, j < s.stackPointer → s₁.mpStack_U8 j = s.mpStack_U8 j := by
    rw [hs₁]
    exact (extends_pushed s bytes).below
  rcases adjust_pointer (by omega) (hsize ▸ hmax) hadjust with hs₂ | hs₂
  · rw [hs₂]
    exact ⟨⟨hpointer.ge, hbelow, hsize, hswap⟩, fun _ => hpointer⟩
  · rw [hs₂]
    refine ⟨⟨?_, hbelow, hsize, hswap⟩, fun hzero => ?_⟩
    · exact hpointer.ge.trans (Nat.le_add_right _ _)
    · show s₁.stackPointer + bytes.length = s.stackPointer
      omega

/-- The push of an array: whatever the first part of it does, it ends with the two words. -/
theorem pushArray_eq_true {array : RpcVarBinary} (hswap : s.SwapByte_B = false) (hmax : s.MaxStackSize_U32 < 2 ^ 32)
    (h : pushArray cpu s array = some (true, s')) :
    ∃ s₁, s.Extends s₁ ∧
      (array.NbItem_U32 * array.ItemSize_U32 = 0 → s₁.stackPointer = s.stackPointer) ∧
      s' = s₁.pushed ([array.ItemSize_U32 % 2 ^ 16, array.NbItem_U32 % 2 ^ 16].flatMap (cpu.store 2)) := by
  unfold pushArray at h
  dsimp only at h
  generalize hnb : array.NbItem_U32 * array.ItemSize_U32 % 2 ^ 32 = nb at h
  split at h
  · split at h
    · next hfits hlen =>
      obtain ⟨s₁, hwrite, hrest⟩ := Option.bind_eq_some_iff.mp h
      obtain ⟨⟨sts, s₂⟩, hadjust, hwords⟩ := Option.bind_eq_some_iff.mp hrest
      rw [← List.length_take_of_le hlen] at hadjust
      obtain ⟨hs₂, hzero⟩ := extends_write_adjust hmax hwrite hadjust
      rw [List.length_take_of_le hlen] at hzero
      obtain ⟨rfl, -⟩ := pushWords_eq_true (hs₂.swap.trans hswap) hwords
      refine ⟨s₂, hs₂, fun hnone => hzero ?_, rfl⟩
      rw [← hnb, hnone]
      exact Nat.zero_mod _
    · exact nomatch h
  · exact nomatch h

/-- An argument that is not sent. -/
theorem pushVar_of_not_sent {ty : RpcVarType} {v : Option RpcValue}
    (h : pushVar cpu ty false v s = some (true, s')) : s' = s := by
  cases ty with
  | other => exact nomatch h
  | _ =>
    obtain ⟨-, rfl⟩ := Prod.mk.inj (Option.some.inj h)
    rfl

/-- An argument that is no array appends its bytes. -/
theorem pushVar_argBytes {a : UInt16 × Nat} (hty : varType a.1 ≠ .array) (hswap : s.SwapByte_B = false)
    (h : pushVar cpu (varType a.1) (rpcParam answer a.1) (value a.2 (varType a.1)) s = some (true, s')) :
    s' = s.pushed (argBytes cpu answer value a) := by
  unfold argBytes
  cases hsent : rpcParam answer a.1 with
  | false =>
    rw [hsent] at h
    rw [pushVar_of_not_sent h]
    rfl
  | true =>
    rw [hsent] at h
    rw [if_pos rfl]
    generalize varType a.1 = ty at hty h
    cases hv : value a.2 ty with
    | none =>
      rw [hv] at h
      cases ty with
      | void =>
        obtain ⟨-, rfl⟩ := Prod.mk.inj (Option.some.inj h)
        rfl
      | array => exact absurd rfl hty
      | other => exact nomatch h
      | _ => exact nomatch h
    | some v =>
      rw [hv] at h
      cases ty with
      | void =>
        obtain ⟨-, rfl⟩ := Prod.mk.inj (Option.some.inj h)
        have hnone : cpu.store 0 (v.word % 256 ^ 0) = [] := List.eq_nil_of_length_eq_zero (cpu.length_store 0 _)
        exact (congrArg s.pushed hnone).symm
      | char => exact (pushBlock_eq_true h).2
      | array => exact absurd rfl hty
      | other => exact nomatch h
      | _ => exact (pushWord_eq_true hswap h).2

theorem pushVar_extends {a : UInt16 × Nat} (hswap : s.SwapByte_B = false) (hmax : s.MaxStackSize_U32 < 2 ^ 32)
    (h : pushVar cpu (varType a.1) (rpcParam answer a.1) (value a.2 (varType a.1)) s = some (true, s')) :
    s.Extends s' := by
  by_cases hty : varType a.1 = .array
  · rw [hty] at h
    cases hsent : rpcParam answer a.1 with
    | false =>
      rw [hsent] at h
      rw [pushVar_of_not_sent h]
      exact .refl s
    | true =>
      rw [hsent] at h
      obtain ⟨v, -, hpush⟩ := Option.bind_eq_some_iff.mp h
      obtain ⟨s₁, hs₁, -, rfl⟩ := pushArray_eq_true hswap hmax hpush
      exact hs₁.trans (extends_pushed s₁ _)
  · rw [pushVar_argBytes hty hswap h]
    exact extends_pushed s _

/-! ## The loop -/

theorem pushVars_append (args args' : List (UInt16 × Nat)) (s : BofStack) :
    pushVars cpu answer value (args ++ args') true s =
      (pushVars cpu answer value args true s).bind fun r =>
        if r.1 then pushVars cpu answer value args' true r.2 else some (false, r.2) := by
  induction args generalizing s with
  | nil => rfl
  | cons a args ih =>
    obtain ⟨arg, i⟩ := a
    rw [List.cons_append, pushVars, pushVars]
    cases hpush : pushVar cpu (varType arg) (rpcParam answer arg) (value i (varType arg)) s with
    | none => rfl
    | some r =>
      obtain ⟨sts, s₁⟩ := r
      cases sts with
      | false => rfl
      | true => exact ih s₁

theorem pushVars_cons {args : List (UInt16 × Nat)} {a : UInt16 × Nat} {sts : Bool}
    (h : pushVars cpu answer value (a :: args) sts s = some (true, s')) :
    ∃ s₂, pushVar cpu (varType a.1) (rpcParam answer a.1) (value a.2 (varType a.1)) s = some (true, s₂) ∧
      pushVars cpu answer value args true s₂ = some (true, s') := by
  obtain ⟨⟨sts₂, s₂⟩, hpush, hargs⟩ := Option.bind_eq_some_iff.mp h
  cases sts₂ with
  | false => exact nomatch hargs
  | true => exact ⟨s₂, hpush, hargs⟩

/-- All the arguments have been pushed: the stack before an argument, and behind it. -/
theorem pushVars_split {before after : List (UInt16 × Nat)} {a : UInt16 × Nat}
    (h : pushVars cpu answer value (before ++ a :: after) true s = some (true, s')) :
    ∃ s₁ s₂, pushVars cpu answer value before true s = some (true, s₁) ∧
      pushVar cpu (varType a.1) (rpcParam answer a.1) (value a.2 (varType a.1)) s₁ = some (true, s₂) ∧
      pushVars cpu answer value after true s₂ = some (true, s') := by
  rw [pushVars_append] at h
  obtain ⟨⟨sts, s₁⟩, hbefore, hrest⟩ := Option.bind_eq_some_iff.mp h
  cases sts with
  | false => exact nomatch hrest
  | true =>
    have hcons : pushVars cpu answer value (a :: after) true s₁ = some (true, s') := hrest
    obtain ⟨s₂, hpush, hafter⟩ := pushVars_cons hcons
    exact ⟨s₁, s₂, hbefore, hpush, hafter⟩

theorem pushVars_extends {args : List (UInt16 × Nat)} (hswap : s.SwapByte_B = false)
    (hmax : s.MaxStackSize_U32 < 2 ^ 32) (h : pushVars cpu answer value args true s = some (true, s')) :
    s.Extends s' := by
  induction args generalizing s with
  | nil =>
    obtain ⟨-, rfl⟩ := Prod.mk.inj (Option.some.inj h)
    exact .refl s
  | cons a args ih =>
    obtain ⟨s₂, hpush, hargs⟩ := pushVars_cons h
    have hs₂ := pushVar_extends hswap hmax hpush
    exact hs₂.trans (ih (hs₂.swap.trans hswap) (hs₂.size ▸ hmax) hargs)

/-- Arguments without arrays append their bytes. -/
theorem pushVars_argBytes {args : List (UInt16 × Nat)}
    (hargs : ∀ a ∈ args, rpcParam answer a.1 = true → varType a.1 ≠ .array) (hswap : s.SwapByte_B = false)
    (h : pushVars cpu answer value args true s = some (true, s')) :
    s' = s.pushed (args.flatMap (argBytes cpu answer value)) := by
  induction args generalizing s with
  | nil =>
    obtain ⟨-, rfl⟩ := Prod.mk.inj (Option.some.inj h)
    rfl
  | cons a args ih =>
    rw [List.forall_mem_cons] at hargs
    obtain ⟨s₂, hpush, hrest⟩ := pushVars_cons h
    have hs₂ : s₂ = s.pushed (argBytes cpu answer value a) := by
      cases hsent : rpcParam answer a.1 with
      | false =>
        rw [hsent] at hpush
        rw [pushVar_of_not_sent hpush, argBytes, if_neg (by rw [hsent]; exact Bool.false_ne_true)]
        rfl
      | true => exact pushVar_argBytes (hargs.1 hsent) hswap hpush
    subst hs₂
    rw [ih (s := s.pushed (argBytes cpu answer value a)) hargs.2 hswap hrest, pushed_append, List.flatMap_cons]

end BofRpc

end BofStd

/-!
# `BofRpc`: the pops of composite arguments

Pops only move the stack pointer (`Moved`). A string ends where a zero has been read, which is one byte above the place
to which the stack pointer has moved.
-/

namespace BofStd

open BofStack

variable {cpu : CpuEndianness} {s s' s'' : BofStack} {answer : Bool}

namespace BofStack

/-- Only the stack pointer is another one. -/
def Moved (s s' : BofStack) : Prop := ∃ ptr, s' = s.withPointer ptr

theorem Moved.refl (s : BofStack) : Moved s s := ⟨s.stackPointer, rfl⟩

theorem Moved.trans (h : Moved s s') (h' : Moved s' s'') : Moved s s'' := by
  obtain ⟨ptr, rfl⟩ := h
  obtain ⟨ptr', rfl⟩ := h'
  exact ⟨ptr', rfl⟩

theorem moved_popBlock {n : Nat} {r : Option (List UInt8) × BofStack} (h : s.popBlock n = some r) : Moved s r.2 := by
  unfold popBlock at h
  split at h
  · obtain ⟨bytes, -, rfl⟩ := Option.map_eq_some_iff.mp h
    exact ⟨_, rfl⟩
  · obtain rfl := Option.some.inj h
    exact .refl s

theorem moved_popWord {w : Nat} {r : Option Nat × BofStack} (h : s.popWord cpu w = some r) : Moved s r.2 := by
  obtain ⟨r', hblock, rfl⟩ := Option.map_eq_some_iff.mp h
  exact moved_popBlock hblock

theorem moved_adjust {offset : Int} {r : Bool × BofStack} (h : s.adjustStackBufferLocation offset = some r) :
    Moved s r.2 := by
  unfold adjustStackBufferLocation at h
  generalize (s.MaxStackSize_U32 : Int).bmod (2 ^ 32) = size at h
  generalize (s.stackPointer : Int).bmod (2 ^ 32) + offset = newPtr at h
  by_cases hint : -2 ^ 31 ≤ newPtr ∧ newPtr < 2 ^ 31
  · by_cases hin : newPtr ≤ size ∧ newPtr ≥ 0
    · rw [if_pos hint, if_pos hin] at h
      obtain rfl := Option.some.inj h
      exact ⟨_, rfl⟩
    · rw [if_pos hint, if_neg hin] at h
      obtain rfl := Option.some.inj h
      exact .refl s
  · rw [if_neg hint] at h
    exact nomatch h

/-- No offset. -/
theorem adjust_zero {r : Bool × BofStack} (h : s.adjustStackBufferLocation 0 = some r)
    (hptr : s.stackPointer < 2 ^ 32) : r.2 = s := by
  have hword := bmod_of_word hptr
  unfold adjustStackBufferLocation at h
  rw [Int.add_zero] at h
  generalize (s.MaxStackSize_U32 : Int).bmod (2 ^ 32) = size at h
  generalize (s.stackPointer : Int).bmod (2 ^ 32) = newPtr at h hword
  by_cases hint : -2 ^ 31 ≤ newPtr ∧ newPtr < 2 ^ 31
  · by_cases hin : newPtr ≤ size ∧ newPtr ≥ 0
    · rw [if_pos hint, if_pos hin] at h
      obtain rfl := Option.some.inj h
      have hsame : newPtr.toNat = s.stackPointer := by omega
      show s.withPointer newPtr.toNat = s
      rw [hsame]
      rfl
    · rw [if_pos hint, if_neg hin] at h
      obtain rfl := Option.some.inj h
      rfl
  · rw [if_neg hint] at h
    exact nomatch h

/-! ## Strings -/

theorem read_one {i : Nat} {bytes : List UInt8} (h : s.read i 1 = some bytes) : bytes = [s.mpStack_U8 i] := by
  rw [BofRpc.read_eq_some h]
  rfl

theorem moved_popTxtLoop {n : Nat} {r : List UInt8 × BofStack} (h : popTxtLoop n s = some r) : Moved s r.2 := by
  induction n generalizing s r with
  | zero =>
    obtain rfl := Option.some.inj h
    exact .refl s
  | succ n ih =>
    obtain ⟨bytes, -, hrest⟩ := Option.bind_eq_some_iff.mp h
    dsimp only at hrest
    split at hrest
    · obtain rfl := Option.some.inj hrest
      exact ⟨_, rfl⟩
    · obtain ⟨r', hloop, hr⟩ := Option.bind_eq_some_iff.mp hrest
      obtain rfl := Option.some.inj hr
      have hnext : Moved s (s.withPointer (s.stackPointer - 1)) := ⟨_, rfl⟩
      have hrest : Moved (s.withPointer (s.stackPointer - 1)) r'.2 := ih hloop
      exact hnext.trans hrest

/-- The zero that ends the loop is one byte above the stack pointer. -/
theorem popTxtLoop_zero {n : Nat} {txt : List UInt8} (h : popTxtLoop n s = some (txt, s')) (hn : n ≤ s.stackPointer)
    (hlast : txt.getLast? = some 0) : s.mpStack_U8 (s'.stackPointer + 1) = 0 := by
  induction n generalizing s txt with
  | zero =>
    obtain ⟨rfl, -⟩ := Prod.mk.inj (Option.some.inj h)
    exact nomatch hlast
  | succ n ih =>
    obtain ⟨bytes, hread, hrest⟩ := Option.bind_eq_some_iff.mp h
    have hbytes := read_one hread
    dsimp only at hrest
    split at hrest
    · next hzero =>
      obtain ⟨-, rfl⟩ := Prod.mk.inj (Option.some.inj hrest)
      have hptr : s.stackPointer - 1 + 1 = s.stackPointer := by omega
      show s.mpStack_U8 (s.stackPointer - 1 + 1) = 0
      rw [hptr]
      exact List.singleton_inj.mp (hbytes.symm.trans hzero)
    · next hne =>
      obtain ⟨⟨txt', s₁⟩, hloop, hr⟩ := Option.bind_eq_some_iff.mp hrest
      obtain ⟨rfl, rfl⟩ := Prod.mk.inj (Option.some.inj hr)
      have hlast' : txt'.getLast? = some 0 := by
        cases htxt : txt' with
        | nil =>
          -- the character that has been read is not zero
          rw [htxt, List.append_nil, hbytes] at hlast
          rw [hbytes] at hne
          exact absurd (congrArg (· :: []) (Option.some.inj hlast)) hne
        | cons c cs => rwa [htxt, List.getLast?_append_of_ne_nil _ (List.cons_ne_nil c cs)] at hlast
      have hptr : n ≤ s.stackPointer - 1 := by omega
      exact ih (s := { s with stackPointer := s.stackPointer - 1 }) hloop hptr hlast'

/-- A string that has been popped from above the bottom of the stack. -/
theorem popTxt_eq_true {txt : List UInt8} (h : s.popTxt = some (true, txt, s')) (hpos : 0 < s.stackPointer) :
    s.mpStack_U8 (s'.stackPointer + 1) = 0 := by
  rw [popTxt, if_neg (Nat.ne_of_gt hpos)] at h
  obtain ⟨⟨txt', s₁⟩, hloop, hr⟩ := Option.map_eq_some_iff.mp h
  dsimp only at hr
  split at hr
  · next hlast =>
    obtain ⟨-, hr⟩ := Prod.mk.inj hr
    obtain ⟨rfl, rfl⟩ := Prod.mk.inj hr
    exact popTxtLoop_zero hloop (Nat.le_refl _) hlast
  · exact nomatch hr

theorem moved_popTxt {r : Bool × List UInt8 × BofStack} (h : s.popTxt = some r) : Moved s r.2.2 := by
  unfold popTxt at h
  split at h
  · obtain rfl := Option.some.inj h
    exact .refl s
  · obtain ⟨r', hloop, rfl⟩ := Option.map_eq_some_iff.mp h
    have hmoved := moved_popTxtLoop hloop
    split <;> exact hmoved

/-- The stack pointer is at a zero. -/
theorem popTxt_of_zero (hpos : 0 < s.stackPointer) (hlt : s.stackPointer < s.MaxStackSize_U32)
    (hzero : s.mpStack_U8 s.stackPointer = 0) : s.popTxt = some (true, [0], s.withPointer (s.stackPointer - 1)) := by
  obtain ⟨n, hn⟩ := Nat.exists_eq_succ_of_ne_zero (Nat.ne_of_gt hpos)
  have hread : s.read s.stackPointer 1 = some [0] := by
    rw [BofStack.read, if_pos (Nat.succ_le_of_lt hlt), ← hzero]
    rfl
  have hloop : popTxtLoop s.stackPointer s = some ([0], s.withPointer (s.stackPointer - 1)) := by
    rw [show popTxtLoop s.stackPointer s = popTxtLoop (n + 1) s by rw [hn], popTxtLoop, hread]
    rfl
  rw [popTxt, if_neg (Nat.ne_of_gt hpos), hloop]
  rfl

end BofStack

namespace BofRpc

/-! ## Arrays -/

/-- What a word of 32 bits is that has been popped. -/
theorem popU32_eq_some {n : Nat} (hswap : s.SwapByte_B = false) (h : s.popU32 cpu = some (some n, s')) :
    4 ≤ s.stackPointer ∧ n = cpu.load (Memory.read s.mpStack_U8 (s.stackPointer - 4) 4) ∧
      s' = s.withPointer (s.stackPointer - 4) := by
  obtain ⟨⟨bytes, s₁⟩, hblock, hr⟩ := Option.map_eq_some_iff.mp h
  obtain ⟨hbytes, rfl⟩ := Prod.mk.inj hr
  unfold popBlock at hblock
  split at hblock
  · next hle =>
    obtain ⟨l, hread, hl⟩ := Option.map_eq_some_iff.mp hblock
    obtain ⟨rfl, rfl⟩ := Prod.mk.inj hl
    rw [Option.map_some, hswap] at hbytes
    obtain rfl := Option.some.inj hbytes
    rw [read_eq_some hread]
    exact ⟨hle, rfl, rfl⟩
  · obtain ⟨rfl, -⟩ := Prod.mk.inj (Option.some.inj hblock)
    exact nomatch hbytes

theorem moved_popArray {array : RpcVarBinary} {r : Bool × RpcVarBinary × BofStack}
    (h : popArray cpu s array = some r) : Moved s r.2.2 := by
  obtain ⟨⟨nbItem, s₁⟩, hpop, hrest⟩ := Option.bind_eq_some_iff.mp h
  have hs₁ : Moved s s₁ := moved_popWord hpop
  cases nbItem with
  | none =>
    obtain rfl := Option.some.inj hrest
    exact hs₁
  | some nbItem =>
    obtain ⟨⟨itemSize, s₂⟩, hpop₂, hrest⟩ := Option.bind_eq_some_iff.mp hrest
    have hs₂ : Moved s₁ s₂ := moved_popWord hpop₂
    cases itemSize with
    | none =>
      obtain rfl := Option.some.inj hrest
      exact hs₁.trans hs₂
    | some itemSize =>
      obtain ⟨⟨sts, s₃⟩, hadjust, hrest⟩ := Option.bind_eq_some_iff.mp hrest
      obtain ⟨bytes, -, hr⟩ := Option.bind_eq_some_iff.mp hrest
      obtain rfl := Option.some.inj hr
      exact (hs₁.trans hs₂).trans (moved_adjust hadjust)

/-- The sizes of an array that has been popped are the two words of 32 bits at the end. -/
theorem popArray_eq_true {array array' : RpcVarBinary} (hswap : s.SwapByte_B = false)
    (h : popArray cpu s array = some (true, array', s')) :
    8 ≤ s.stackPointer ∧ array'.NbItem_U32 = cpu.load (Memory.read s.mpStack_U8 (s.stackPointer - 4) 4) ∧
      array'.ItemSize_U32 = cpu.load (Memory.read s.mpStack_U8 (s.stackPointer - 8) 4) ∧
      ∃ sts, (s.withPointer (s.stackPointer - 8)).adjustStackBufferLocation
        (((array'.NbItem_U32 * array'.ItemSize_U32 % 2 ^ 32 : Nat) : Int).bmod (2 ^ 32)) = some (sts, s') := by
  obtain ⟨⟨nbItem, s₁⟩, hpop, hrest⟩ := Option.bind_eq_some_iff.mp h
  cases nbItem with
  | none => exact nomatch hrest
  | some nbItem =>
    obtain ⟨h4, hnb, hs₁⟩ := popU32_eq_some hswap hpop
    obtain ⟨⟨itemSize, s₂⟩, hpop₂, hrest⟩ := Option.bind_eq_some_iff.mp hrest
    cases itemSize with
    | none => exact nomatch hrest
    | some itemSize =>
      have hswap₁ : s₁.SwapByte_B = false := by rw [hs₁]; exact hswap
      obtain ⟨h8, hsize, hs₂⟩ := popU32_eq_some hswap₁ hpop₂
      rw [hs₁] at h8 hsize hs₂
      have hptr : s.stackPointer - 4 - 4 = s.stackPointer - 8 := by omega
      obtain ⟨⟨sts, s₃⟩, hadjust, hrest⟩ := Option.bind_eq_some_iff.mp hrest
      obtain ⟨bytes, -, hr⟩ := Option.bind_eq_some_iff.mp hrest
      obtain ⟨-, hr⟩ := Prod.mk.inj (Option.some.inj hr)
      obtain ⟨rfl, rfl⟩ := Prod.mk.inj hr
      refine ⟨?_, hnb, ?_, sts, ?_⟩
      · have h8' : 4 ≤ s.stackPointer - 4 := h8
        omega
      · rw [← hptr]
        exact hsize
      · rw [← hptr]
        rw [hs₂] at hadjust
        exact hadjust

/-! ## Arguments -/

theorem moved_popVar {ty : RpcVarType} {sent : Bool} {v : RpcVar} {r : Bool × RpcVar × BofStack}
    (h : popVar cpu ty sent v s = some r) : Moved s r.2.2 := by
  have hscalar : ∀ {w : Nat}, popScalar cpu w v s = some r → Moved s r.2.2 := by
    intro w hpop
    obtain ⟨⟨n, s₁⟩, hword, hrest⟩ := Option.bind_eq_some_iff.mp hpop
    have hs₁ := moved_popWord hword
    cases n with
    | none =>
      obtain rfl := Option.some.inj hrest
      exact hs₁
    | some n =>
      obtain rfl := Option.some.inj hrest
      exact hs₁
  cases sent with
  | false =>
    cases ty <;>
      (obtain rfl := Option.some.inj h
       exact .refl s)
  | true =>
    cases ty with
    | void | u64 | s64 | other =>
      obtain rfl := Option.some.inj h
      exact .refl s
    | char =>
      obtain ⟨⟨sts, txt, s₁⟩, hpop, hrest⟩ := Option.bind_eq_some_iff.mp h
      have hs₁ := moved_popTxt hpop
      dsimp only at hrest
      split at hrest
      · obtain rfl := Option.some.inj hrest
        exact hs₁
      · exact nomatch hrest
    | array =>
      obtain ⟨⟨sts, array, s₁⟩, hpop, hrest⟩ := Option.bind_eq_some_iff.mp h
      obtain rfl := Option.some.inj hrest
      exact moved_popArray hpop
    | u8 | s8 | u16 | s16 | u32 | s32 | float | double => exact hscalar h

theorem popVar_array {v v' : RpcVar} (h : popVar cpu .array true v s = some (true, v', s')) :
    ∃ array, popArray cpu s (v.array cpu) = some (true, array, s') ∧ v' = v.setArray cpu array := by
  obtain ⟨⟨sts, array, s₁⟩, hpop, hrest⟩ := Option.bind_eq_some_iff.mp h
  obtain ⟨rfl, hvs⟩ := Prod.mk.inj (Option.some.inj hrest)
  obtain ⟨rfl, rfl⟩ := Prod.mk.inj hvs
  exact ⟨array, hpop, rfl⟩

theorem popVar_char {v v' : RpcVar} (h : popVar cpu .char true v s = some (true, v', s')) :
    ∃ txt, s.popTxt = some (true, txt, s') := by
  obtain ⟨⟨sts, txt, s₁⟩, hpop, hrest⟩ := Option.bind_eq_some_iff.mp h
  dsimp only at hrest
  split at hrest
  · obtain ⟨rfl, hvs⟩ := Prod.mk.inj (Option.some.inj hrest)
    obtain ⟨-, rfl⟩ := Prod.mk.inj hvs
    exact ⟨txt, hpop⟩
  · exact nomatch hrest

/-! ## The loop -/

theorem popVars_append (args args' : List (UInt16 × Nat)) (vars : Nat → RpcVar) (s : BofStack) :
    popVars cpu answer (args ++ args') vars s =
      (popVars cpu answer args vars s).bind fun r =>
        if r.1 then popVars cpu answer args' r.2.1 r.2.2 else some r := by
  induction args generalizing vars s with
  | nil => rfl
  | cons a args ih =>
    obtain ⟨arg, i⟩ := a
    rw [List.cons_append, popVars, popVars]
    dsimp only
    cases hpop : popVar cpu (varType arg) (rpcParam answer arg) { vars i with Arg_U16 := arg, Type_E := varType arg } s with
    | none => rfl
    | some r =>
      obtain ⟨sts, v, s₁⟩ := r
      cases sts with
      | false => rfl
      | true => exact ih _ s₁

theorem popVars_cons {args : List (UInt16 × Nat)} {a : UInt16 × Nat} {vars vars' : Nat → RpcVar}
    (h : popVars cpu answer (a :: args) vars s = some (true, vars', s')) :
    ∃ v s₁, popVar cpu (varType a.1) (rpcParam answer a.1)
        { vars a.2 with Arg_U16 := a.1, Type_E := varType a.1 } s = some (true, v, s₁) ∧
      popVars cpu answer args (Function.update vars a.2 v) s₁ = some (true, vars', s') := by
  obtain ⟨⟨sts, v, s₁⟩, hpop, hrest⟩ := Option.bind_eq_some_iff.mp h
  cases sts with
  | false => exact nomatch hrest
  | true => exact ⟨v, s₁, hpop, hrest⟩

/-- The arguments in front have been popped before. -/
theorem popVars_split {args args' : List (UInt16 × Nat)} {vars vars' : Nat → RpcVar}
    (h : popVars cpu answer (args ++ args') vars s = some (true, vars', s')) :
    ∃ vars₁ s₁, popVars cpu answer args vars s = some (true, vars₁, s₁) ∧
      popVars cpu answer args' vars₁ s₁ = some (true, vars', s') := by
  rw [popVars_append] at h
  obtain ⟨⟨sts, vars₁, s₁⟩, hargs, hrest⟩ := Option.bind_eq_some_iff.mp h
  cases sts with
  | false => exact nomatch hrest
  | true => exact ⟨vars₁, s₁, hargs, hrest⟩

theorem moved_popVars {args : List (UInt16 × Nat)} {vars vars' : Nat → RpcVar}
    (h : popVars cpu answer args vars s = some (true, vars', s')) : Moved s s' := by
  induction args generalizing s vars with
  | nil =>
    obtain ⟨rfl, rfl⟩ : vars = vars' ∧ s = s' := by simpa [popVars] using h
    exact .refl s
  | cons a args ih =>
    obtain ⟨v, s₁, hpop, hrest⟩ := popVars_cons h
    exact (moved_popVar hpop).trans (ih hrest)

/-- The variables of other arguments. -/
theorem popVars_other {args : List (UInt16 × Nat)} {vars vars' : Nat → RpcVar} {i : Nat}
    (h : popVars cpu answer args vars s = some (true, vars', s')) (hi : i ∉ args.map Prod.snd) :
    vars' i = vars i := by
  induction args generalizing s vars with
  | nil =>
    obtain ⟨rfl, rfl⟩ : vars = vars' ∧ s = s' := by simpa [popVars] using h
    rfl
  | cons a args ih =>
    obtain ⟨v, s₁, hpop, hrest⟩ := popVars_cons h
    rw [List.map_cons, List.mem_cons, not_or] at hi
    rw [ih hrest hi.2, Function.update_of_ne hi.1]

/-- What is popped for an argument is there at the end. -/
theorem popVars_at {args args' : List (UInt16 × Nat)} {a : UInt16 × Nat} {vars vars₁ vars' : Nat → RpcVar}
    {v : RpcVar} {s₁ s₂ : BofStack} (h : popVars cpu answer (args ++ a :: args') vars s = some (true, vars', s'))
    (hargs : popVars cpu answer args vars s = some (true, vars₁, s₁))
    (hpop : popVar cpu (varType a.1) (rpcParam answer a.1)
      { vars₁ a.2 with Arg_U16 := a.1, Type_E := varType a.1 } s₁ = some (true, v, s₂))
    (hnot : a.2 ∉ args'.map Prod.snd) : vars' a.2 = v := by
  obtain ⟨vars₂, s₃, hargs', hrest⟩ := popVars_split h
  obtain ⟨rfl, rfl⟩ : vars₁ = vars₂ ∧ s₁ = s₃ := by simpa [hargs] using hargs'
  obtain ⟨v', s₄, hpop', hrest⟩ := popVars_cons hrest
  obtain ⟨rfl, rfl⟩ : v = v' ∧ s₂ = s₄ := by simpa [hpop] using hpop'
  rw [popVars_other hrest hnot, Function.update_self]

end BofRpc

end BofStd
